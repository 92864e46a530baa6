import EmailWatcher.Library.Text

-- The quotes from an email that support what a model has extracted from it.
namespace Scheduling

open Text

inductive EvidenceSource
  | sender
  | subject
  | body
  | attachmentName
  deriving DecidableEq, Repr

structure SchedulingEvidence where
  source : EvidenceSource
  quote  : Text
  deriving DecidableEq

-- The fields of the email that evidence can be found in.
structure SourceFields where
  sender          : Text
  subject         : Text
  body            : Text
  attachmentNames : List Text

def evidenceCandidates (evidence : SchedulingEvidence) (source : SourceFields) : List Text :=
  match evidence.source with
  | .sender         => [source.sender]
  | .subject        => [source.subject]
  | .body           => [source.body]
  | .attachmentName => source.attachmentNames

structure Canonical where
  characters   : Text
  offsets      : List Nat
  whitespaceAt : Option Nat

def Canonical.step (s : Canonical) (x : CodePoint × Nat) : Canonical :=
  let (character, index) := x
  if isSpace character then
    if s.characters ≠ [] ∧ s.whitespaceAt = none then { s with whitespaceAt := some index } else s
  else
    let s : Canonical := match s.whitespaceAt with
      | some whitespace => ⟨s.characters ++ [space], s.offsets ++ [whitespace], none⟩
      | none            => s
    { s with characters := s.characters ++ [character], offsets := s.offsets ++ [index] }

def canonicalEvidenceWithOffsets (value : Text) : Text × List Nat :=
  let s := value.zipIdx.foldl Canonical.step ⟨[], [], none⟩
  (s.characters, s.offsets)

def canonicalEvidenceText (value : Text) : Text :=
  collapse value

def evidenceSupported (evidence : SchedulingEvidence) (source : SourceFields) : Bool :=
  let quote := canonicalEvidenceText evidence.quote
  quote ≠ [] ∧
  (evidenceCandidates evidence source).any fun candidate => quote <:+: canonicalEvidenceText candidate

def delimiters : List CodePoint :=
  ['.', '!', '?']

def contextLeft (raw : Text) (rawQuoteAt : Nat) : Nat :=
  ((delimiters.map (rfind raw · rawQuoteAt)).foldl max (-1) + 1).toNat

def contextRight (raw quote : Text) (rawQuoteEnd : Nat) : Nat :=
  if quote.getLast? ∈ delimiters.map some then rawQuoteEnd
  else (delimiters.filterMap fun d => find raw [d] rawQuoteEnd).min?.getD raw.length

-- The sentence around a quote that is found at `quoteAt` of the canonical text. The offsets are looked
-- up without a check.
def contextAt (raw : Text) (offsets : List Nat) (quote : Text) (quoteAt : Nat) : Option Text := do
  let rawQuoteAt ← offsets[quoteAt]?
  let rawQuoteEnd := (← offsets[quoteAt + quote.length - 1]?) + 1
  return strip (slice raw (contextLeft raw rawQuoteAt) (contextRight raw quote rawQuoteEnd))

-- The contexts of the occurrences from `searchAt` on, or nothing where an offset is out of range.
def contextsFrom (raw candidate : Text) (offsets : List Nat) (quote : Text) (searchAt : Nat)
    (contexts : List Text) : Option (List Text) :=
  match _h : find candidate quote searchAt with
  | none         => some contexts
  | some quoteAt =>
    match contextAt raw offsets quote quoteAt with
    | none         => none
    | some context =>
      contextsFrom raw candidate offsets quote (quoteAt + 1)
        (if context ≠ [] ∧ context ∉ contexts then contexts ++ [context] else contexts)
termination_by candidate.length + 1 - searchAt
decreasing_by
  have := (find_eq_some.mp _h).right.left
  omega

def evidenceSourceContexts (evidence : SchedulingEvidence) (source : SourceFields) : Option (List Text) :=
  let quote := canonicalEvidenceText evidence.quote
  if quote = [] then some []
  else (evidenceCandidates evidence source).foldlM (fun contexts raw =>
    let (candidate, offsets) := canonicalEvidenceWithOffsets raw
    contextsFrom raw candidate offsets quote 0 contexts) []

-- What a canonical character stands for: itself, or a run of white space that begins at its offset.
def StandsFor (value : Text) (character : CodePoint) (offset : Nat) : Prop :=
  ∃ c, value[offset]? = some c ∧ if character = space then isSpace c = true else c = character

-- The canonical text of the first `n` characters, with the offsets of its characters.
structure Indexed (value : Text) (n : Nat) (s : Canonical) : Prop where
  length     : s.offsets.length = s.characters.length
  increasing : s.offsets.Pairwise (· < ·)
  below      : ∀ o ∈ s.offsets, o < n
  pending    : ∀ w, s.whitespaceAt = some w →
    s.characters ≠ [] ∧ w < n ∧ (∀ o ∈ s.offsets, o < w) ∧ ∃ c, value[w]? = some c ∧ isSpace c = true
  stands     : ∀ (i o : Nat) (c : CodePoint), s.characters[i]? = some c → s.offsets[i]? = some o →
    StandsFor value c o

section Canonical

variable {value xs : Text} {n : Nat} {s : Canonical} {c : CodePoint}

theorem Indexed.skip (h : Indexed value n s) : Indexed value (n + 1) s where
  length         := h.length
  increasing     := h.increasing
  below o ho     := (h.below o ho).trans (Nat.lt_succ_self n)
  pending w hw   :=
    have ⟨hs, hn, hp⟩ := h.pending w hw
    ⟨hs, hn.trans (Nat.lt_succ_self n), hp⟩
  stands         := h.stands

-- A character is added, with an offset that is beyond all others.
theorem Indexed.push {o : Nat} (h : Indexed value n s) (ho : ∀ o' ∈ s.offsets, o' < o) (hn : o < n)
    (hs : StandsFor value c o) : Indexed value n ⟨s.characters ++ [c], s.offsets ++ [o], none⟩ where
  length        := by simp [h.length]
  increasing    := List.pairwise_append.mpr ⟨h.increasing, by simp, by simpa using ho⟩
  below o' ho'  := by
    rcases List.mem_append.mp ho' with ho' | ho'
    · exact h.below o' ho'
    · rwa [List.mem_singleton.mp ho']
  pending w hw  := by cases hw
  stands i o' d hd ho' := by
    rcases Nat.lt_trichotomy i s.characters.length with hi | rfl | hi
    · rw [List.getElem?_append_left hi] at hd
      rw [List.getElem?_append_left (h.length ▸ hi)] at ho'
      exact h.stands i o' d hd ho'
    · rw [List.getElem?_concat_length] at hd
      rw [← h.length, List.getElem?_concat_length] at ho'
      cases hd
      cases ho'
      exact hs
    · rw [List.getElem?_eq_none (by simp; omega)] at hd
      cases hd

theorem step_space (hc : isSpace c = true) :
    s.step (c, n) =
      if s.characters ≠ [] ∧ s.whitespaceAt = none then { s with whitespaceAt := some n } else s := by
  simp [Canonical.step, hc]

theorem step_word (hc : isSpace c = false) (hw : s.whitespaceAt = none) :
    s.step (c, n) = ⟨s.characters ++ [c], s.offsets ++ [n], none⟩ := by
  simp [Canonical.step, hc, hw]

theorem step_spaced_word {w : Nat} (hc : isSpace c = false) (hw : s.whitespaceAt = some w) :
    s.step (c, n) = ⟨s.characters ++ [space] ++ [c], s.offsets ++ [w] ++ [n], none⟩ := by
  simp [Canonical.step, hc, hw]

theorem Indexed.step (h : Indexed value n s) (hc : value[n]? = some c) :
    Indexed value (n + 1) (s.step (c, n)) := by
  cases hspace : isSpace c
  case true =>
    rw [step_space hspace]
    split
    case isFalse => exact h.skip
    case isTrue hs =>
      refine ⟨h.length, h.increasing, h.skip.below, fun w hw => ?_, h.stands⟩
      cases hw
      exact ⟨hs.left, Nat.lt_succ_self n, h.below, c, hc, hspace⟩
  case false =>
    have hstands : StandsFor value c n := by
      refine ⟨c, hc, ?_⟩
      split
      case isTrue he => rw [he] at hspace; cases hspace
      case isFalse   => rfl
    cases hw : s.whitespaceAt
    case none =>
      rw [step_word hspace hw]
      exact h.skip.push h.below (Nat.lt_succ_self n) hstands
    case some w =>
      obtain ⟨-, hn, hlast, d, hd, hdspace⟩ := h.pending w hw
      rw [step_spaced_word hspace hw]
      refine (h.push hlast hn ⟨d, hd, by simpa using hdspace⟩).skip.push (fun o ho => ?_)
        (Nat.lt_succ_self n) hstands
      rcases List.mem_append.mp ho with ho | ho
      · exact h.below o ho
      · rwa [List.mem_singleton.mp ho]

-- The loop over the characters from the index `n` on.
def Canonical.scan (n : Nat) (s : Canonical) (xs : Text) : Canonical :=
  (xs.zipIdx n).foldl Canonical.step s

theorem scan_cons : s.scan n (c :: xs) = (s.step (c, n)).scan (n + 1) xs := by
  simp [Canonical.scan]

theorem scan_append {ys : Text} : s.scan n (xs ++ ys) = (s.scan n xs).scan (n + xs.length) ys := by
  simp [Canonical.scan, List.zipIdx_append]

theorem Indexed.scan (h : Indexed value n s) (hx : xs <+: value.drop n) :
    Indexed value (n + xs.length) (s.scan n xs) := by
  induction xs generalizing n s
  case nil => exact h
  case cons c xs ih =>
    obtain ⟨rest, hx⟩ := hx
    have hc : value[n]? = some c := by
      rw [← List.head?_drop, ← hx]
      rfl
    have hrest : xs <+: value.drop (n + 1) := by
      rw [← List.drop_drop, ← hx]
      exact List.prefix_append _ _
    rw [scan_cons, List.length_cons, Nat.add_comm xs.length, ← Nat.add_assoc]
    exact ih (h.step hc) hrest

-- The loop makes the same text as splitting it and joining the words.
theorem scan_characters (h : s.characters = [] → s.whitespaceAt = none) :
    (s.scan n xs).characters =
      s.characters ++ if s.characters = [] then collapse xs else follow s.whitespaceAt.isSome xs := by
  induction xs generalizing n s
  case nil => cases hs : decide (s.characters = []) <;> simp_all [Canonical.scan, follow]
  case cons c xs ih =>
    rw [scan_cons]
    cases hc : isSpace c
    case true =>
      rw [step_space hc, collapse_space hc]
      split
      case isTrue hs  => rw [ih (by simp [hs.left])]; simp [hs.left, follow, hc]
      case isFalse hs =>
        rw [ih h]
        by_cases hn : s.characters = []
        case pos => simp [hn]
        case neg =>
          have hw : s.whitespaceAt.isSome := by
            rw [Option.isSome_iff_ne_none]
            exact fun hw => hs ⟨hn, hw⟩
          simp [hn, follow, hc, hw]
    case false =>
      rw [collapse_word hc]
      cases hw : s.whitespaceAt
      case none =>
        rw [step_word hc hw, ih (by simp)]
        simp [follow, hc]
      case some w =>
        have hn : s.characters ≠ [] := fun hn => by simp [h hn] at hw
        rw [step_spaced_word hc hw, ih (by simp)]
        simp [follow, hc, hn]

theorem step_grows : s.characters <+: (s.step (c, n)).characters ∧ s.offsets <+: (s.step (c, n)).offsets := by
  cases hc : isSpace c
  case true =>
    rw [step_space hc]
    split <;> exact ⟨List.prefix_rfl, List.prefix_rfl⟩
  case false =>
    cases hw : s.whitespaceAt
    case none   => simp [step_word hc hw]
    case some w => simp [step_spaced_word hc hw, List.append_assoc]

theorem scan_grows : s.characters <+: (s.scan n xs).characters ∧ s.offsets <+: (s.scan n xs).offsets := by
  induction xs generalizing n s
  case nil          => exact ⟨List.prefix_rfl, List.prefix_rfl⟩
  case cons c xs ih =>
    rw [scan_cons]
    exact ⟨step_grows.left.trans ih.left, step_grows.right.trans ih.right⟩

end Canonical

def Canonical.start : Canonical :=
  ⟨[], [], none⟩

theorem Indexed.start {value : Text} : Indexed value 0 Canonical.start where
  length     := rfl
  increasing := .nil
  below      := by simp [Canonical.start]
  pending    := by simp [Canonical.start]
  stands     := by simp [Canonical.start]

theorem canonicalEvidenceWithOffsets_fst (value : Text) :
    (canonicalEvidenceWithOffsets value).fst = canonicalEvidenceText value :=
  (scan_characters (n := 0) (s := .start) fun _ => rfl).trans (by simp [Canonical.start, canonicalEvidenceText])

theorem Indexed.take (value : Text) (i : Nat) :
    Indexed value (0 + (value.take i).length) (Canonical.start.scan 0 (value.take i)) :=
  Indexed.start.scan <| by simpa using List.take_prefix i value

theorem indexed_canonical (value : Text) :
    Indexed value value.length ⟨(canonicalEvidenceWithOffsets value).fst,
      (canonicalEvidenceWithOffsets value).snd, (Canonical.start.scan 0 value).whitespaceAt⟩ := by
  have h := Indexed.take value value.length
  rwa [List.take_length, Nat.zero_add] at h

section Locality

variable {value : Text} {i j k l : Nat} {c d : CodePoint}

theorem scan_take_grows (value : Text) (i : Nat) :
    (Canonical.start.scan 0 (value.take i)).characters <+: (canonicalEvidenceWithOffsets value).fst ∧
    (Canonical.start.scan 0 (value.take i)).offsets <+: (canonicalEvidenceWithOffsets value).snd := by
  have h : (Canonical.start.scan 0 (value.take i)).scan (0 + (value.take i).length) (value.drop i) =
      Canonical.start.scan 0 value := by
    rw [← scan_append, List.take_append_drop]
  change _ <+: (Canonical.start.scan 0 value).characters ∧ _ <+: (Canonical.start.scan 0 value).offsets
  rw [← h]
  exact scan_grows

-- The canonical text before the `k`-th character, which stands for a word's character, is that of the
-- text before it, and likewise with the character.
theorem scan_take (hc : value[i]? = some c) (hn : isSpace c = false)
    (hk : (canonicalEvidenceWithOffsets value).snd[k]? = some i) :
    ((Canonical.start.scan 0 (value.take i)).characters ++
      if (Canonical.start.scan 0 (value.take i)).whitespaceAt.isSome then [space] else []) =
        (canonicalEvidenceWithOffsets value).fst.take k ∧
    (Canonical.start.scan 0 (value.take (i + 1))).characters =
        (canonicalEvidenceWithOffsets value).fst.take (k + 1) := by
  obtain ⟨hi, hget⟩ := List.getElem?_eq_some_iff.mp hc
  have htake : value.take (i + 1) = value.take i ++ [c] := by rw [List.take_add_one, hc]; rfl
  have hlength : (value.take i).length = i := by rw [List.length_take]; omega
  obtain ⟨s, hs⟩ : ∃ s, Canonical.start.scan 0 (value.take i) = s := ⟨_, rfl⟩
  have hnext : Canonical.start.scan 0 (value.take (i + 1)) = s.step (c, i) := by
    rw [htake, scan_append, hs, hlength, Nat.zero_add]
    rfl
  obtain ⟨gap, offsets, hgap, hstep⟩ : ∃ gap offsets,
      (gap = if s.whitespaceAt.isSome then [space] else []) ∧
      s.step (c, i) = ⟨s.characters ++ gap ++ [c], offsets ++ [i], none⟩ := by
    cases hw : s.whitespaceAt
    case none   => exact ⟨[], s.offsets, rfl, by simp [step_word hn hw]⟩
    case some w => exact ⟨[space], s.offsets ++ [w], rfl, step_spaced_word hn hw⟩
  have hindexed := Indexed.take value (i + 1)
  obtain ⟨hcharacters, hoffsets⟩ := scan_take_grows value (i + 1)
  rw [hnext, hstep] at hindexed hcharacters hoffsets
  have hlast : (canonicalEvidenceWithOffsets value).snd[offsets.length]? = some i := by
    obtain ⟨rest, hrest⟩ := hoffsets
    rw [← hrest, List.append_assoc, List.getElem?_append_right le_rfl]
    simp
  have hnodup : (canonicalEvidenceWithOffsets value).snd.Nodup :=
    (indexed_canonical value).increasing.imp Nat.ne_of_lt
  obtain rfl : offsets.length = k :=
    (List.getElem?_inj (List.getElem?_eq_some_iff.mp hlast).choose hnodup).mp (hlast.trans hk.symm)
  have hlen : (s.characters ++ gap).length = offsets.length := by
    have := hindexed.length
    simp only [List.length_append, List.length_singleton] at this ⊢
    omega
  rw [hnext, hstep, hs, ← hgap]
  refine ⟨?_, ?_⟩
  · rw [← hlen]
    exact List.prefix_iff_eq_take.mp ((List.prefix_append _ _).trans hcharacters)
  · have hlen' : (s.characters ++ gap ++ [c]).length = offsets.length + 1 := by
      rw [List.length_append, hlen, List.length_singleton]
    rw [← hlen']
    exact List.prefix_iff_eq_take.mp hcharacters

-- What stands between two words' characters has the canonical text between them.
theorem collapse_slice (hc : value[i]? = some c) (hcn : isSpace c = false) (hd : value[j]? = some d)
    (hdn : isSpace d = false) (hk : (canonicalEvidenceWithOffsets value).snd[k]? = some i)
    (hl : (canonicalEvidenceWithOffsets value).snd[l]? = some j) (hkl : k ≤ l) :
    i ≤ j ∧ collapse (slice value i (j + 1)) = slice (canonicalEvidenceWithOffsets value).fst k (l + 1) := by
  obtain ⟨hkn, hkv⟩ := List.getElem?_eq_some_iff.mp hk
  obtain ⟨hln, hlv⟩ := List.getElem?_eq_some_iff.mp hl
  have hindexed := indexed_canonical value
  have hij : i ≤ j := by
    rcases Nat.lt_or_eq_of_le hkl with hlt | rfl
    · have := List.pairwise_iff_getElem.mp hindexed.increasing k l hkn hln hlt
      exact (hkv.symm.trans_lt (this.trans_eq hlv)).le
    · exact (Option.some.inj (hk.symm.trans hl)).le
  obtain ⟨hi, -⟩ := List.getElem?_eq_some_iff.mp hc
  have hcons : slice value i (j + 1) = c :: slice value (i + 1) (j + 1) := slice_cons hc (by omega)
  obtain ⟨s, hs⟩ : ∃ s, Canonical.start.scan 0 (value.take i) = s := ⟨_, rfl⟩
  have hlength : (value.take i).length = i := by rw [List.length_take]; omega
  have hscan : Canonical.start.scan 0 (value.take (j + 1)) = s.scan i (slice value i (j + 1)) := by
    rw [← take_append_slice (Nat.le_succ_of_le hij), scan_append, hs, hlength, Nat.zero_add]
  have hpending : s.characters = [] → s.whitespaceAt = none := fun he => by
    by_contra hw
    obtain ⟨w, hw⟩ := Option.ne_none_iff_exists'.mp hw
    exact ((hs ▸ Indexed.take value i).pending w hw).left he
  have hbefore := (scan_take hc hcn hk).left
  have hafter := (scan_take hd hdn hl).right
  rw [hs] at hbefore
  rw [hscan, scan_characters hpending, hcons, follow_word hcn, ← hcons] at hafter
  refine ⟨hij, ?_⟩
  have hwhole : (canonicalEvidenceWithOffsets value).fst.take k ++ collapse (slice value i (j + 1)) =
      (canonicalEvidenceWithOffsets value).fst.take (l + 1) := by
    rw [← hafter, ← hbefore]
    by_cases he : s.characters = []
    case pos => simp [he, hpending he]
    case neg => rw [if_neg he, List.append_assoc]
  have hkc : k ≤ (canonicalEvidenceWithOffsets value).fst.length := hindexed.length ▸ hkn.le
  change _ = List.drop k (List.take (l + 1) _)
  rw [← hwhole, List.drop_append_of_le_length (by simp [hkc]),
    List.drop_eq_nil_of_le (List.length_take_le k _), List.nil_append]

end Locality

-- A sentence of the raw text that holds the quote, up to white space.
structure IsContext (raw quote context : Text) : Prop where
  cut   : ∃ left right, context = strip (slice raw left right)
  holds : quote <:+: canonicalEvidenceText context

section Contexts

variable {raw quote : Text} {quoteAt searchAt : Nat} {c d : CodePoint}

theorem StandsFor.of_word {value : Text} {o : Nat} (h : StandsFor value c o) (hc : isSpace c = false) :
    value[o]? = some c := by
  obtain ⟨d, hd, hcd⟩ := h
  split at hcd
  case isTrue he  => rw [he] at hc; cases hc
  case isFalse    => rwa [← hcd]

theorem getElem?_canonical (quoteAt : Nat) (h : (canonicalEvidenceWithOffsets raw).fst[quoteAt]? = some c)
    (hc : isSpace c = false) :
    ∃ o, (canonicalEvidenceWithOffsets raw).snd[quoteAt]? = some o ∧ raw[o]? = some c := by
  have hindexed := indexed_canonical raw
  have hlt := hindexed.length ▸ (List.getElem?_eq_some_iff.mp h).choose
  refine ⟨_, List.getElem?_eq_getElem hlt, ?_⟩
  exact (hindexed.stands quoteAt _ c h (List.getElem?_eq_getElem hlt)).of_word hc

theorem contextLeft_le {i : Nat} : contextLeft raw i ≤ i := by
  simp only [contextLeft, delimiters, List.map_cons, List.map_nil, List.foldl_cons, List.foldl_nil]
  have hlt (d : CodePoint) : rfind raw d i < i := rfind_bounds.right
  have := hlt '.'
  have := hlt '!'
  have := hlt '?'
  omega

theorem le_contextRight {i : Nat} (hi : i ≤ raw.length) : i ≤ contextRight raw quote i := by
  unfold contextRight
  split
  case isTrue => exact le_rfl
  case isFalse =>
    cases h : (delimiters.filterMap fun d => find raw [d] i).min?
    case none => exact hi
    case some right =>
      obtain ⟨d, -, hd⟩ := List.mem_filterMap.mp (List.min?_mem h)
      exact (find_eq_some.mp hd).right.left.left

-- An occurrence of a quote in the canonical text has a context in the raw text.
theorem contextAt_eq_some (hc : quote.head? = some c) (hcn : isSpace c = false)
    (hd : quote.getLast? = some d) (hdn : isSpace d = false)
    (h : quote <+: (canonicalEvidenceWithOffsets raw).fst.drop quoteAt) :
    ∃ context, contextAt raw (canonicalEvidenceWithOffsets raw).snd quote quoteAt = some context ∧
      IsContext raw quote context := by
  have hpos : 0 < quote.length := List.length_pos_of_mem (List.mem_of_head? hc)
  obtain ⟨rest, hrest⟩ := h
  have hget (k : Nat) (hk : k < quote.length) :
      (canonicalEvidenceWithOffsets raw).fst[quoteAt + k]? = quote[k]? := by
    rw [← List.getElem?_drop, ← hrest, List.getElem?_append_left hk]
  obtain ⟨i, hi, hri⟩ := getElem?_canonical quoteAt ((hget 0 hpos).trans (List.head?_eq_getElem? ▸ hc)) hcn
  obtain ⟨j, hj, hrj⟩ := getElem?_canonical (quoteAt + (quote.length - 1))
    ((hget _ (by omega)).trans (List.getLast?_eq_getElem? ▸ hd)) hdn
  obtain ⟨hij, hslice⟩ := collapse_slice hri hcn hrj hdn hi hj (Nat.le_add_right _ _)
  have hquote : slice (canonicalEvidenceWithOffsets raw).fst quoteAt (quoteAt + (quote.length - 1) + 1) = quote := by
    rw [slice, List.drop_take, ← hrest]
    have : quoteAt + (quote.length - 1) + 1 - quoteAt = quote.length := by omega
    rw [this, List.take_left]
  have hlast : quoteAt + quote.length - 1 = quoteAt + (quote.length - 1) := by omega
  refine ⟨_, by rw [contextAt, hlast, hi, hj]; rfl, ⟨_, _, rfl⟩, ?_⟩
  have hleft : contextLeft raw i ≤ i := contextLeft_le
  have hright : j + 1 ≤ contextRight raw quote (j + 1) :=
    le_contextRight (List.getElem?_eq_some_iff.mp hrj).choose
  rw [canonicalEvidenceText, collapse_strip, ← slice_append hleft (by omega : i ≤ contextRight raw quote (j + 1)),
    ← slice_append (Nat.le_succ_of_le hij) hright, ← List.append_assoc, slice_cons hri (by omega)]
  rw [← hquote, ← hslice, slice_cons hri (by omega)]
  exact collapse_infix hcn

-- The quote of an evidence, which begins and ends with a word.
structure IsQuote (quote : Text) : Prop where
  first : ∃ c, quote.head? = some c ∧ isSpace c = false
  last  : ∃ c, quote.getLast? = some c ∧ isSpace c = false

theorem isQuote_canonical {text : Text} (h : canonicalEvidenceText text ≠ []) :
    IsQuote (canonicalEvidenceText text) := by
  unfold canonicalEvidenceText at *
  obtain ⟨c, cs, hc, he⟩ := exists_collapse_eq h
  obtain ⟨d, hd⟩ := Option.ne_none_iff_exists'.mp (fun hn => h (List.getLast?_eq_none_iff.mp hn))
  refine ⟨⟨c, by rw [he, collapse_word hc]; rfl, hc⟩, d, hd, ?_⟩
  have hfollow : follow false (c :: cs) = collapse (c :: cs) := follow_word hc
  rw [he, ← hfollow] at hd
  exact getLast?_follow hd

theorem IsContext.ne_nil {context : Text} (h : IsContext raw quote context) (hq : quote ≠ []) : context ≠ [] := by
  rintro rfl
  exact hq (List.infix_nil.mp h.holds)

theorem contextsFrom_eq_some (raw : Text) (hq : IsQuote quote) (searchAt : Nat) (contexts : List Text) :
    ∃ contexts', contextsFrom raw (canonicalEvidenceWithOffsets raw).fst
        (canonicalEvidenceWithOffsets raw).snd quote searchAt contexts = some contexts' ∧
      (∀ context ∈ contexts', context ∈ contexts ∨ IsContext raw quote context) ∧
      (contexts' ≠ [] ↔ contexts ≠ [] ∨
        (find (canonicalEvidenceWithOffsets raw).fst quote searchAt).isSome) := by
  obtain ⟨⟨c, hc, hcn⟩, d, hd, hdn⟩ := hq
  fun_induction contextsFrom raw (canonicalEvidenceWithOffsets raw).fst
    (canonicalEvidenceWithOffsets raw).snd quote searchAt contexts
  case case1 searchAt contexts hnone => exact ⟨contexts, rfl, fun _ h => .inl h, by simp [hnone]⟩
  case case2 searchAt contexts i hsome hcontext =>
    obtain ⟨context, h, -⟩ := contextAt_eq_some hc hcn hd hdn (find_eq_some.mp hsome).left
    rw [hcontext] at h
    cases h
  case case3 searchAt contexts i hsome context hcontext ih =>
    obtain ⟨context', h, hcut⟩ := contextAt_eq_some hc hcn hd hdn (find_eq_some.mp hsome).left
    obtain rfl := Option.some.inj (hcontext.symm.trans h)
    obtain ⟨contexts', hrest, hmem, hnil⟩ := ih
    refine ⟨contexts', hrest, fun x hx => ?_, iff_of_true (hnil.mpr (.inl ?_)) (by simp [hsome])⟩
    · rcases hmem x hx with hx | hx
      · split at hx
        case isFalse => exact .inl hx
        case isTrue  =>
          rcases List.mem_append.mp hx with hx | hx
          · exact .inl hx
          · exact .inr (List.mem_singleton.mp hx ▸ hcut)
      · exact .inr hx
    · have hcontext : context ≠ [] := hcut.ne_nil (List.ne_nil_of_mem (List.mem_of_head? hc))
      split
      case isTrue     => simp
      case isFalse hn => exact List.ne_nil_of_mem (by simpa [hcontext] using hn)

theorem foldlM_contexts (hq : IsQuote quote) (candidates : List Text) (contexts : List Text) :
    ∃ contexts', candidates.foldlM (fun contexts raw =>
        contextsFrom raw (canonicalEvidenceWithOffsets raw).fst (canonicalEvidenceWithOffsets raw).snd
          quote 0 contexts) contexts = some contexts' ∧
      (∀ context ∈ contexts', context ∈ contexts ∨ ∃ raw ∈ candidates, IsContext raw quote context) ∧
      (contexts' ≠ [] ↔ contexts ≠ [] ∨ ∃ raw ∈ candidates, quote <:+: canonicalEvidenceText raw) := by
  induction candidates generalizing contexts
  case nil => exact ⟨contexts, rfl, fun _ h => .inl h, by simp⟩
  case cons raw candidates ih =>
    obtain ⟨between, hfrom, hmem, hnil⟩ := contextsFrom_eq_some raw hq 0 contexts
    obtain ⟨contexts', hrest, hmem', hnil'⟩ := ih between
    rw [find_isSome, canonicalEvidenceWithOffsets_fst] at hnil
    refine ⟨contexts', by simp [hfrom, hrest], fun x hx => ?_, ?_⟩
    · rcases hmem' x hx with hx | ⟨raw', hraw, hx⟩
      · exact (hmem x hx).imp id fun hx => ⟨raw, by simp, hx⟩
      · exact .inr ⟨raw', by simp [hraw], hx⟩
    · simp [hnil', hnil, or_assoc]

end Contexts

-- Evidence is supported exactly where the dates of its sentences can be looked for, and the text that is
-- made with offsets is the canonical one.
theorem evidence_contexts_agree (evidence : SchedulingEvidence) (source : SourceFields) :
    (∃ contexts, evidenceSourceContexts evidence source = some contexts ∧
      (evidenceSupported evidence source = true ↔ contexts ≠ []) ∧
      ∀ context ∈ contexts, ∃ raw ∈ evidenceCandidates evidence source,
        IsContext raw (canonicalEvidenceText evidence.quote) context) ∧
    ∀ value characters offsets, canonicalEvidenceWithOffsets value = (characters, offsets) →
      characters = canonicalEvidenceText value ∧ offsets.length = characters.length ∧
      offsets.Pairwise (· < ·) ∧
      ∀ (i o : Nat) (c : CodePoint), characters[i]? = some c → offsets[i]? = some o → StandsFor value c o := by
  refine ⟨?_, fun value characters offsets h => ?_⟩
  · by_cases hq : canonicalEvidenceText evidence.quote = []
    case pos => exact ⟨[], by simp [evidenceSourceContexts, hq], by simp [evidenceSupported, hq], by simp⟩
    case neg =>
      obtain ⟨contexts, hc, hmem, hnil⟩ :=
        foldlM_contexts (isQuote_canonical hq) (evidenceCandidates evidence source) []
      refine ⟨contexts, by rw [evidenceSourceContexts, if_neg hq]; exact hc, ?_, fun x hx => ?_⟩
      · simp [evidenceSupported, hq, hnil]
      · exact (hmem x hx).resolve_left (by simp)
  · have hindexed := indexed_canonical value
    have hfst := canonicalEvidenceWithOffsets_fst value
    rw [h] at hindexed hfst
    exact ⟨hfst, hindexed.length, hindexed.increasing, hindexed.stands⟩

end Scheduling
