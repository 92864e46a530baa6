import EmailWatcher.Deployment.Selection
import Mathlib.Data.List.Nodup

-- What the user manager has said of the units, where a result is returned.
namespace Deployment

open Octets (newline)

section Segments

-- The runs of lines that are not blank.
def segments (bytes : Octets) : List Octets :=
  (((bytes.splitOn newline).splitOn []).filter (· ≠ [])).map fun lines => [newline].intercalate lines

variable {bytes block rest : Octets} {b : Octet}

-- A block whose lines are not blank
structure Solid (block : Octets) : Prop where
  nonempty : block ≠ []
  first    : block.head? ≠ some newline
  last     : block.getLast? ≠ some newline
  whole    : partition block = none

theorem partition_cons_none (h : partition (b :: bytes) = none) :
    ¬(b = newline ∧ bytes.head? = some newline) ∧ partition bytes = none := by
  rw [partition] at h
  split at h
  case isTrue     => cases h
  case isFalse hb => exact ⟨hb, Option.map_eq_none_iff.mp h⟩

-- No line of it is blank.
theorem Solid.lines : ∀ {block : Octets}, Solid block → [] ∉ block.splitOn newline
  | [], h             => absurd rfl h.nonempty
  | [c], h            => by
    have hc : c ≠ newline := fun hc => h.first (congrArg some hc)
    simp [List.splitOn_cons_eq_if_modifyHead, hc]
  | c :: d :: rest, h => by
    have hc : c ≠ newline := fun hc => h.first (congrArg some hc)
    obtain ⟨-, hwhole⟩ := partition_cons_none h.whole
    have hlast : (d :: rest).getLast? ≠ some newline := List.getLast?_cons_cons ▸ h.last
    by_cases hd : d = newline
    case pos =>
      -- the line ends here, and the block does not
      subst hd
      have hne : rest ≠ [] := by
        rintro rfl
        exact hlast rfl
      obtain ⟨hfirst, hrest⟩ := partition_cons_none hwhole
      have hsolid : Solid rest :=
        ⟨hne, fun h => hfirst ⟨rfl, h⟩, List.getLast?_cons_of_ne_nil hne ▸ hlast, hrest⟩
      have hc' : newline ∉ [c] := by simpa using hc.symm
      have hlines : ([c] ++ newline :: rest).splitOn newline = [c] :: rest.splitOn newline :=
        List.splitOn_append_cons_self_of_not_mem hc' rest
      change [] ∉ ([c] ++ newline :: rest).splitOn newline
      rw [hlines, List.mem_cons, not_or]
      exact ⟨(List.cons_ne_nil _ _).symm, hsolid.lines⟩
    case neg =>
      have hsolid : Solid (d :: rest) := ⟨List.cons_ne_nil _ _, fun h => hd (Option.some.inj h), hlast, hwhole⟩
      have hlines := hsolid.lines
      obtain ⟨q, qs, hq⟩ := List.exists_cons_of_ne_nil (List.splitOn_ne_nil newline (d :: rest))
      rw [List.splitOn_cons_eq_if_modifyHead, if_neg (by simpa using hc), hq, List.modifyHead_cons, List.mem_cons,
        not_or]
      rw [hq, List.mem_cons, not_or] at hlines
      exact ⟨(List.cons_ne_nil _ _).symm, hlines.right⟩

theorem Solid.segments (h : Solid block) : segments block = [block] := by
  rw [Deployment.segments, List.splitOn_eq_singleton h.lines]
  simp [List.intercalate_splitOn]

theorem segments_nil : segments [] = [] := by
  decide

theorem segments_append : segments (bytes ++ newline :: newline :: rest) = segments bytes ++ segments rest := by
  have hlines : (newline :: rest).splitOn newline = [] :: rest.splitOn newline := by
    simp [List.splitOn_cons_eq_if_modifyHead]
  rw [segments, List.splitOn_append_cons_self, hlines, List.splitOn_append_cons_self, List.filter_append,
    List.map_append]
  rfl

theorem segments_concat (h : Solid block) : segments (block ++ [newline]) = [block] := by
  have hblank : ([[]] : List Octets).splitOn [] = [[], []] := by decide
  have hlines : (block ++ [newline]).splitOn newline = block.splitOn newline ++ [[]] := by
    rw [List.splitOn_append_cons_self, List.splitOn_nil]
  rw [Deployment.segments, hlines, List.splitOn_append_cons_self, List.splitOn_eq_singleton h.lines]
  simp [List.intercalate_splitOn]

-- What comes before the first blank line.
theorem partition_some {x : Octets × Octets} (h : partition bytes = some x) :
    partition x.fst = none ∧ x.fst.getLast? ≠ some newline := by
  induction bytes generalizing x
  case nil          => cases h
  case cons b bs ih =>
    rw [partition] at h
    split at h
    case isTrue  =>
      obtain rfl := Option.some.inj h
      exact ⟨rfl, by simp⟩
    case isFalse hb =>
      obtain ⟨y, hy, rfl⟩ := Option.map_eq_some_iff.mp h
      obtain ⟨hwhole, hlast⟩ := ih hy
      have hbs := partition_eq hy
      cases hfst : y.fst
      case nil         =>
        rw [hfst] at hbs
        have hb' : b ≠ newline := fun hb' => hb ⟨hb', hbs ▸ rfl⟩
        exact ⟨by simp [partition], fun hlast => hb' (Option.some.inj hlast)⟩
      case cons d rest =>
        rw [hfst] at hbs hwhole hlast
        have hb' : ¬(b = newline ∧ (d :: rest).head? = some newline) := fun hb' => hb ⟨hb'.left, hbs ▸ hb'.right⟩
        rw [partition, if_neg hb', hwhole]
        rw [List.getLast?_cons_cons]
        exact ⟨rfl, hlast⟩

theorem partition_concat (h : partition (bytes ++ [newline]) = none) :
    partition bytes = none ∧ bytes.getLast? ≠ some newline := by
  constructor
  · cases hbytes : partition bytes
    case none   => rfl
    case some x =>
      rw [Capture.partition_append hbytes] at h
      cases h
  · intro hlast
    obtain ⟨more, rfl⟩ := List.getLast?_eq_some_iff.mp hlast
    rw [List.append_assoc] at h
    exact Capture.partition_ne_none h

theorem rstrip_eq (h : bytes.getLast? ≠ some newline) : rstrip bytes = bytes := by
  refine List.rdropWhile_eq_self_iff.mpr fun hne hlast => h ?_
  rw [List.getLast?_eq_some_getLast hne, of_decide_eq_true hlast]

-- The last block need not have ended.
theorem segments_of_none (h : partition bytes = none)
    (hfirst : ∀ block ∈ [rstrip bytes].filter (· ≠ []), block.head? ≠ some newline) :
    [rstrip bytes].filter (· ≠ []) = segments bytes := by
  obtain rfl | ⟨body, c, rfl⟩ := List.eq_nil_or_concat bytes
  case inl => decide
  case inr =>
    rw [List.concat_eq_append] at h hfirst ⊢
    by_cases hc : c = newline
    case neg =>
      have hlast : (body ++ [c]).getLast? ≠ some newline := by simpa using hc
      have hfilter : [body ++ [c]].filter (· ≠ []) = [body ++ [c]] := by simp
      rw [rstrip_eq hlast, hfilter] at hfirst ⊢
      have hsolid : Solid (body ++ [c]) := ⟨by simp, hfirst _ List.mem_cons_self, hlast, h⟩
      exact hsolid.segments.symm
    case pos =>
      subst hc
      obtain ⟨hwhole, hlast⟩ := partition_concat h
      have hstrip : rstrip (body ++ [newline]) = body := by
        rw [rstrip, List.rdropWhile_concat_pos _ _ _ (by simp)]
        exact rstrip_eq hlast
      rw [hstrip] at hfirst ⊢
      by_cases hempty : body = []
      case pos =>
        subst hempty
        decide
      case neg =>
        have hfilter : [body].filter (· ≠ []) = [body] := by simp [hempty]
        rw [hfilter] at hfirst ⊢
        exact (segments_concat ⟨hempty, hfirst _ List.mem_cons_self, hlast, hwhole⟩).symm

-- Where no block begins with a newline, the blocks are the runs of lines that are not blank.
theorem blocksOf_eq_segments (h : ∀ block ∈ Capture.blocksOf bytes, block.head? ≠ some newline) :
    Capture.blocksOf bytes = segments bytes := by
  induction bytes using Capture.separated.induct
  case case1 bytes hnone =>
    rw [Capture.blocksOf, Capture.separated_of_none hnone] at h ⊢
    exact segments_of_none hnone h
  case case2 bytes x hsome ih =>
    have hblocks : Capture.blocksOf bytes = [x.fst].filter (· ≠ []) ++ Capture.blocksOf x.snd := by
      rw [Capture.blocksOf, Capture.separated_of_some hsome, Capture.blocksOf, ← List.filter_append]
      rfl
    rw [hblocks] at h ⊢
    obtain ⟨hwhole, hlast⟩ := partition_some hsome
    rw [partition_eq hsome, segments_append, ih fun block hblock => h block (List.mem_append_right _ hblock)]
    congr 1
    by_cases hempty : x.fst = []
    case pos => simp [hempty, segments_nil]
    case neg =>
      have hfilter : [x.fst].filter (· ≠ []) = [x.fst] := by simp [hempty]
      have hfirst := h x.fst (List.mem_append_left _ (by simp [hempty]))
      rw [hfilter, Solid.segments ⟨hempty, hfirst, hlast, hwhole⟩]

end Segments

section Units

variable (names : List Text) (blocks : List Octets)

-- What a block says of its unit, if it can be read.
def described (block : Octets) : Record :=
  (Capture.readRecord names block).toOption.getD []

def nameOf (block : Octets) : Text :=
  ((described names block).get Capture.idField).getD []

def wordsOf (block : Octets) (field : Text) : List Text :=
  (managerWords (((described names block).get field).getD [])).toOption.getD []

-- What the requested roots depend on.
def dependencies : List Text :=
  blocks.flatMap fun block => if nameOf names block ∈ names then activationFields.flatMap (wordsOf names block) else []

-- A unit is requested, or it is one of the dependencies, by its name or by an alias.
def Selects (dependencies : List Text) (block : Octets) : Prop :=
  nameOf names block ∈ names ∨ nameOf names block ∈ dependencies ∨
    ∃ other ∈ wordsOf names block Capture.namesField, other ∈ dependencies

instance {dependencies : List Text} : DecidablePred (Selects names dependencies) :=
  fun _ => inferInstanceAs <| Decidable (_ ∨ _ ∨ _)

-- The selected ones of some blocks, each with a blank line behind it.
def chosen (dependencies : List Text) : Octets :=
  (blocks.filter (Selects names dependencies)).flatMap (· ++ [newline, newline])

def selection : Octets :=
  chosen names blocks (dependencies names blocks)

variable {names blocks} {block : Octets} {dependencies' : List Text} {x y : List Text × List Text} {c c' : Capture}

-- A list is mapped if each of its elements is.
theorem mapM_eq_ok {α β ε : Type} {f : α → Except ε (List β)} {l : List α} {bs : List (List β)} :
    l.mapM f = .ok bs ↔ (∀ a ∈ l, ∃ b, f a = .ok b) ∧ bs = l.map fun a => (f a).toOption.getD [] := by
  induction l generalizing bs
  case nil          =>
    rw [List.mapM_nil, Transaction.pure_eq_ok]
    simp [eq_comm]
  case cons a l ih =>
    rw [List.mapM_cons, Transaction.bind_eq_ok, List.forall_mem_cons, List.map_cons]
    constructor
    case mp  =>
      rintro ⟨b, hb, h⟩
      obtain ⟨bs', hbs, h⟩ := Transaction.bind_eq_ok.mp h
      obtain rfl := Except.ok.inj h
      obtain ⟨hall, rfl⟩ := ih.mp hbs
      exact ⟨⟨⟨b, hb⟩, hall⟩, by rw [hb]; rfl⟩
    case mpr =>
      rintro ⟨⟨⟨b, hb⟩, hall⟩, rfl⟩
      refine ⟨b, hb, Transaction.bind_eq_ok.mpr ⟨_, ih.mpr ⟨hall, rfl⟩, ?_⟩⟩
      rw [hb]
      rfl

theorem described_eq {record : Record} (h : Capture.readRecord names block = .ok record) :
    described names block = record := by
  rw [described, h]
  rfl

def Readable (names : List Text) (block : Octets) : Prop :=
  ∃ record, Capture.readRecord names block = .ok record

-- A field whose words can be read.
def Worded (names : List Text) (block : Octets) (field : Text) : Prop :=
  ∃ words, managerWords (((described names block).get field).getD []) = .ok words

theorem roots_eq_ok : Capture.roots names x block = .ok y ↔
    Readable names block ∧
    if nameOf names block ∈ names then
      nameOf names block ∉ x.fst ∧ (∀ field ∈ activationFields, Worded names block field) ∧
        y = (nameOf names block :: x.fst, x.snd ++ activationFields.flatMap (wordsOf names block))
    else y = x := by
  rw [Capture.roots, Transaction.bind_eq_ok, Readable, ← exists_and_right]
  refine exists_congr fun record => and_congr_right fun hrecord => ?_
  obtain rfl := described_eq hrecord
  have hname : ((described names block).get Capture.idField).getD [] = nameOf names block := rfl
  simp only [hname]
  by_cases hroot : nameOf names block ∈ names
  case neg =>
    rw [if_pos hroot, if_neg hroot, Transaction.pure_eq_ok]
    exact eq_comm
  case pos =>
    rw [if_neg (not_not.mpr hroot), if_pos hroot]
    by_cases hknown : nameOf names block ∈ x.fst
    case pos =>
      rw [if_pos hknown]
      exact iff_of_false (fun h => by cases h) fun h => h.left hknown
    case neg =>
      rw [if_neg hknown, Transaction.bind_eq_ok, and_iff_right hknown]
      constructor
      case mp  =>
        rintro ⟨words, hwords, h⟩
        obtain rfl := Except.ok.inj h
        obtain ⟨hall, rfl⟩ := mapM_eq_ok.mp hwords
        exact ⟨hall, rfl⟩
      case mpr =>
        rintro ⟨hall, rfl⟩
        exact ⟨_, mapM_eq_ok.mpr ⟨hall, rfl⟩, rfl⟩

-- A block that the first loop takes.
def Legible (names : List Text) (block : Octets) : Prop :=
  Readable names block ∧ (nameOf names block ∈ names → ∀ field ∈ activationFields, Worded names block field)

-- The roots that are described
def rootNames (names : List Text) (blocks : List Octets) : List Text :=
  (blocks.map (nameOf names)).filter (· ∈ names)

theorem foldlM_roots (hx : x.fst.Nodup) : blocks.foldlM (Capture.roots names) x = .ok y ↔
    (∀ block ∈ blocks, Legible names block) ∧ ((rootNames names blocks).reverse ++ x.fst).Nodup ∧
    y = ((rootNames names blocks).reverse ++ x.fst, x.snd ++ dependencies names blocks) := by
  induction blocks generalizing x
  case nil                =>
    rw [List.foldlM_nil, Transaction.pure_eq_ok]
    simp [rootNames, dependencies, hx, eq_comm]
  case cons block blocks ih =>
    rw [List.foldlM_cons, Transaction.bind_eq_ok, List.forall_mem_cons]
    by_cases hroot : nameOf names block ∈ names
    case pos =>
      have hnames : (rootNames names (block :: blocks)).reverse ++ x.fst =
          (rootNames names blocks).reverse ++ (nameOf names block :: x.fst) := by
        simp [rootNames, hroot]
      have hdependencies : dependencies names (block :: blocks) =
          activationFields.flatMap (wordsOf names block) ++ dependencies names blocks := by
        simp [dependencies, hroot]
      rw [hnames, hdependencies, ← List.append_assoc]
      constructor
      case mp  =>
        rintro ⟨z, hz, h⟩
        rw [roots_eq_ok, if_pos hroot] at hz
        obtain ⟨hreadable, hnew, hworded, rfl⟩ := hz
        obtain ⟨hall, hrest⟩ := (ih (List.nodup_cons.mpr ⟨hnew, hx⟩)).mp h
        exact ⟨⟨⟨hreadable, fun _ => hworded⟩, hall⟩, hrest⟩
      case mpr =>
        rintro ⟨⟨⟨hreadable, hworded⟩, hall⟩, hnodup, hy⟩
        have hnew := List.nodup_cons.mp (List.nodup_append.mp hnodup).right.left
        have hz : Capture.roots names x block = .ok (nameOf names block :: x.fst,
            x.snd ++ activationFields.flatMap (wordsOf names block)) := by
          rw [roots_eq_ok, if_pos hroot]
          exact ⟨hreadable, hnew.left, hworded hroot, rfl⟩
        exact ⟨_, hz, (ih (List.nodup_cons.mpr hnew)).mpr ⟨hall, hnodup, hy⟩⟩
    case neg =>
      have hnames : rootNames names (block :: blocks) = rootNames names blocks := by simp [rootNames, hroot]
      have hdependencies : dependencies names (block :: blocks) = dependencies names blocks := by
        simp [dependencies, hroot]
      rw [hnames, hdependencies, and_assoc, ← ih hx]
      constructor
      case mp  =>
        rintro ⟨z, hz, h⟩
        rw [roots_eq_ok, if_neg hroot] at hz
        obtain ⟨hreadable, rfl⟩ := hz
        exact ⟨⟨hreadable, fun h => absurd h hroot⟩, h⟩
      case mpr =>
        rintro ⟨hlegible, h⟩
        refine ⟨x, ?_, h⟩
        rw [roots_eq_ok, if_neg hroot]
        exact ⟨hlegible.left, rfl⟩

theorem retain_eq_ok {value : Octets} : c.retain value = .ok c' ↔
    c.output.length + value.length ≤ maxManagerBytes ∧ c' = { c with output := c.output ++ value } := by
  rw [Capture.retain, Capture.checkSize_eq]
  split
  case isTrue h  => exact iff_of_false (fun h => by cases h) fun hle => Nat.not_lt.mpr hle.left h
  case isFalse h =>
    rw [and_iff_right (Nat.not_lt.mp h)]
    exact Transaction.pure_eq_ok.trans eq_comm

theorem select_eq_ok (hr : Readable c.names block) (hsize : c.output.length ≤ maxManagerBytes) :
    Capture.select dependencies' c block = .ok c' ↔
    Worded c.names block Capture.namesField ∧
    (c.output ++ chosen c.names [block] dependencies').length ≤ maxManagerBytes ∧
    c' = { c with output := c.output ++ chosen c.names [block] dependencies' } := by
  obtain ⟨record, hrecord⟩ := hr
  obtain rfl := described_eq hrecord
  rw [Capture.select, hrecord]
  change ((managerWords (((described c.names block).get Capture.namesField).getD []) >>= fun aliases =>
    if nameOf c.names block ∈ c.names ∨ nameOf c.names block ∈ dependencies' ∨ ∃ other ∈ aliases, other ∈ dependencies'
    then c.retain (block ++ [newline, newline]) else pure c) = .ok c') ↔ _
  rw [Transaction.bind_eq_ok, Worded, ← exists_and_right]
  refine exists_congr fun aliases => and_congr_right fun haliases => ?_
  have hwords : wordsOf c.names block Capture.namesField = aliases := by rw [wordsOf, haliases]; rfl
  rw [← hwords]
  split
  case isTrue hselects  =>
    have hchosen : chosen c.names [block] dependencies' = block ++ [newline, newline] := by
      have hselects : Selects c.names dependencies' block := hselects
      simp [chosen, hselects]
    rw [hchosen, retain_eq_ok, ← List.length_append]
  case isFalse hselects =>
    have hchosen : chosen c.names [block] dependencies' = [] := by
      have hselects : ¬Selects c.names dependencies' block := hselects
      simp [chosen, hselects]
    rw [hchosen, List.append_nil, and_iff_right hsize]
    exact Transaction.pure_eq_ok.trans eq_comm

theorem chosen_cons : chosen names (block :: blocks) dependencies' =
    chosen names [block] dependencies' ++ chosen names blocks dependencies' := by
  rw [chosen, chosen, chosen, ← List.flatMap_append, ← List.filter_append, List.singleton_append]

theorem foldlM_select (hr : ∀ block ∈ blocks, Readable c.names block) (hsize : c.output.length ≤ maxManagerBytes) :
    blocks.foldlM (Capture.select dependencies') c = .ok c' ↔
    (∀ block ∈ blocks, Worded c.names block Capture.namesField) ∧
    (c.output ++ chosen c.names blocks dependencies').length ≤ maxManagerBytes ∧
    c' = { c with output := c.output ++ chosen c.names blocks dependencies' } := by
  induction blocks generalizing c
  case nil                =>
    rw [List.foldlM_nil, Transaction.pure_eq_ok]
    simp [chosen, hsize, eq_comm]
  case cons block blocks ih =>
    obtain ⟨hblock, hrest⟩ := List.forall_mem_cons.mp hr
    have hnext := ih (c := { c with output := c.output ++ chosen c.names [block] dependencies' }) hrest
    rw [List.foldlM_cons, Transaction.bind_eq_ok, List.forall_mem_cons, chosen_cons, ← List.append_assoc]
    constructor
    case mp  =>
      rintro ⟨d, hd, h⟩
      obtain ⟨hworded, hfits, rfl⟩ := (select_eq_ok hblock hsize).mp hd
      obtain ⟨hall, hfits', hc'⟩ := (hnext hfits).mp h
      exact ⟨⟨hworded, hall⟩, hfits', hc'⟩
    case mpr =>
      rintro ⟨⟨hworded, hall⟩, hfits, hc'⟩
      have hfits' : (c.output ++ chosen c.names [block] dependencies').length ≤ maxManagerBytes := by
        rw [List.length_append] at hfits
        exact (Nat.le_add_right _ _).trans hfits
      exact ⟨_, (select_eq_ok hblock hsize).mpr ⟨hworded, hfits', rfl⟩, (hnext hfits').mpr ⟨hall, hfits, hc'⟩⟩

-- The blocks of which a result is made.
structure Complete (names : List Text) (blocks : List Octets) : Prop where
  short    : ∀ block ∈ blocks, block.length ≤ maxManagerBytes
  legible  : ∀ block ∈ blocks, Legible names block
  aliases  : ∀ block ∈ blocks, Worded names block Capture.namesField
  once     : (rootNames names blocks).Nodup
  fits     : (selection names blocks).length ≤ maxManagerBytes

theorem graph_eq_ok (h : c.output = []) : c.graph = .ok c' ↔
    (∀ block ∈ c.scratch, Legible c.names block) ∧ (∀ block ∈ c.scratch, Worded c.names block Capture.namesField) ∧
    (rootNames c.names c.scratch).Nodup ∧ (selection c.names c.scratch).length ≤ maxManagerBytes ∧
    c' = { c with output := selection c.names c.scratch } := by
  have hsize : c.output.length ≤ maxManagerBytes := by simp [h]
  rw [Capture.graph, Transaction.bind_eq_ok]
  constructor
  case mp  =>
    rintro ⟨x, hx, hselect⟩
    obtain ⟨hlegible, honce, rfl⟩ := (foldlM_roots List.nodup_nil).mp hx
    rw [foldlM_select (fun block hblock => (hlegible block hblock).left) hsize, h, List.nil_append,
      List.nil_append] at hselect
    rw [List.append_nil, List.nodup_reverse] at honce
    exact ⟨hlegible, hselect.left, honce, hselect.right⟩
  case mpr =>
    rintro ⟨hlegible, haliases, honce, hfits, hc'⟩
    rw [← List.nodup_reverse, ← List.append_nil (rootNames c.names c.scratch).reverse] at honce
    refine ⟨_, (foldlM_roots List.nodup_nil).mpr ⟨hlegible, honce, rfl⟩, ?_⟩
    rw [foldlM_select (fun block hblock => (hlegible block hblock).left) hsize, h, List.nil_append, List.nil_append]
    exact ⟨haliases, hfits, hc'⟩

theorem decodeStrict_newline {bytes : Octets} :
    Octets.decodeStrict (newline :: bytes) = (Octets.decodeStrict bytes).map (lineFeed :: ·) := by
  have hlead : Octets.lead newline = .char lineFeed := rfl
  rw [Octets.decodeStrict, Octets.scan, Octets.scan_char hlead, List.mapM_cons, Octets.decodeStrict]
  cases (Octets.scan bytes).mapM id <;> rfl

theorem managerRecord_lineFeed {text : Text} : managerRecord (lineFeed :: text) names = .error invalid := by
  have hlines : (lineFeed :: text).splitOn lineFeed = [] :: text.splitOn lineFeed := by
    simp [List.splitOn_cons_eq_if_modifyHead]
  rw [managerRecord, hlines, List.foldlM_cons]
  rfl

-- A block that begins with a newline cannot be read.
theorem Readable.head? (h : Readable names block) : block.head? ≠ some newline := by
  intro hhead
  obtain ⟨bytes, rfl⟩ : ∃ bytes, block = newline :: bytes := ⟨_, List.eq_cons_of_mem_head? hhead⟩
  obtain ⟨record, hrecord⟩ := h
  rw [Capture.readRecord, decodeStrict_newline] at hrecord
  cases hdecode : Octets.decodeStrict bytes
  case none      =>
    rw [hdecode] at hrecord
    cases hrecord
  case some text =>
    rw [hdecode] at hrecord
    change managerRecord (lineFeed :: text) names = _ at hrecord
    rw [managerRecord_lineFeed] at hrecord
    cases hrecord

theorem tooLong_eq {bytes : Octets} : Capture.tooLong bytes = (Capture.blocksOf bytes).any Capture.isLong := by
  have hfilter (l : List Octets) : (l.filter (· ≠ [])).any Capture.isLong = l.any Capture.isLong := by
    rw [List.any_filter]
    refine List.any_congr rfl fun block => ?_
    by_cases hempty : block = []
    · subst hempty
      decide
    · simp [hempty]
  rw [Capture.tooLong, Capture.blocksOf, hfilter, List.any_append]
  simp

theorem decoded_eq_ok {bytes : Octets} {text : Text} :
    Capture.decoded bytes = .ok text ↔ Octets.decodeStrict bytes = some text := by
  rw [Capture.decoded]
  cases Octets.decodeStrict bytes
  case none      => exact iff_of_false (fun h => by cases h) fun h => by cases h
  case some text => rw [Except.ok.injEq, Option.some.injEq]

theorem short_iff {bytes : Octets} : ¬Capture.tooLong bytes ↔
    ∀ block ∈ Capture.blocksOf bytes, block.length ≤ maxManagerBytes := by
  simp [tooLong_eq, Capture.isLong]

theorem read_units_eq_ok {chunks : List Octets} {text : Text} : Capture.read .units names chunks = .ok text ↔
    Capture.blocksOf chunks.flatten = segments chunks.flatten ∧ Complete names (segments chunks.flatten) ∧
    Octets.decodeStrict (selection names (segments chunks.flatten)) = some text := by
  rw [Capture.read_units]
  constructor
  case mp  =>
    intro h
    split at h
    case isTrue        => cases h
    case isFalse hlong =>
      obtain ⟨c', hgraph, h⟩ := Transaction.bind_eq_ok.mp h
      obtain ⟨hlegible, haliases, honce, hfits, rfl⟩ := (graph_eq_ok rfl).mp hgraph
      have hblocks := blocksOf_eq_segments fun block hblock => (hlegible block hblock).left.head?
      have hcomplete : Complete names (Capture.blocksOf chunks.flatten) :=
        ⟨short_iff.mp hlong, hlegible, haliases, honce, hfits⟩
      have htext := decoded_eq_ok.mp h
      exact ⟨hblocks, hblocks ▸ hcomplete, hblocks ▸ htext⟩
  case mpr =>
    rintro ⟨hblocks, hcomplete, htext⟩
    rw [← hblocks] at hcomplete htext
    rw [if_neg (short_iff.mpr hcomplete.short)]
    obtain ⟨c, hc⟩ : ∃ c, c =
        { Capture.inBlocks names chunks.flatten with scratch := Capture.blocksOf chunks.flatten } := ⟨_, rfl⟩
    have hnames : c.names = names := by rw [hc]; rfl
    have hscratch : c.scratch = Capture.blocksOf chunks.flatten := by rw [hc]
    have hgraph : c.graph = .ok { c with output := selection c.names c.scratch } := by
      rw [graph_eq_ok (by rw [hc]; rfl), hnames, hscratch]
      exact ⟨hcomplete.legible, hcomplete.aliases, hcomplete.once, hcomplete.fits, rfl⟩
    rw [← hc, hgraph, hnames, hscratch]
    exact decoded_eq_ok.mpr htext

end Units

section Idle

theorem managerWords_nil : managerWords [] = .ok [] := by
  rw [managerWords, wordsFrom]
  rfl

-- A target on which nothing depends, as the user manager describes it.
def idleTarget : Octets :=
  [newline].intercalate <| (["Names=", "Transient=no", "Requires=", "Requisite=", "Wants=", "BindsTo=", "Upholds=",
    "OnSuccess=", "OnFailure=", "Triggers=", "Id=a.target", "LoadState=loaded", "ActiveState=active", "FragmentPath=",
    "DropInPaths=", "NeedDaemonReload=no"] : List String).map fun line => (line : Octets)

def idleNames : List Text :=
  [("a.target" : String)]

theorem idle_complete : Complete idleNames [idleTarget] ∧
    selection idleNames [idleTarget] = idleTarget ++ [newline, newline] := by
  have hreadable : (Capture.readRecord idleNames idleTarget).toOption.isSome := by decide +kernel
  have hfields : ∀ field ∈ Capture.namesField :: activationFields,
      ((described idleNames idleTarget).get field).getD [] = [] := by decide +kernel
  have hworded : ∀ field ∈ Capture.namesField :: activationFields, Worded idleNames idleTarget field :=
    fun field hfield => ⟨[], by rw [hfields field hfield, managerWords_nil]⟩
  have hname : nameOf idleNames idleTarget ∈ idleNames := by decide +kernel
  have hselection : selection idleNames [idleTarget] = idleTarget ++ [newline, newline] := by
    have hselects : Selects idleNames (dependencies idleNames [idleTarget]) idleTarget := .inl hname
    simp [selection, chosen, hselects]
  refine ⟨?_, hselection⟩
  constructor
  case short   => decide +kernel
  case once    => decide +kernel
  case fits    =>
    rw [hselection]
    decide +kernel
  case aliases =>
    rw [List.forall_mem_singleton]
    exact hworded _ List.mem_cons_self
  case legible =>
    rw [List.forall_mem_singleton]
    constructor
    · cases hrecord : Capture.readRecord idleNames idleTarget
      case error     => rw [hrecord] at hreadable; cases hreadable
      case ok record => exact ⟨record, hrecord⟩
    · exact fun _ field hfield => hworded field (List.mem_cons_of_mem _ hfield)

end Idle

section Theorem

-- What is returned does not depend on the chunks in which the output arrives.
theorem selection_unchunked (names : List Text) (chunks : List Octets) :
    (∀ mode, Capture.read mode names chunks = Capture.read mode names [chunks.flatten]) ∧
    (Capture.read .environment names chunks =
      if maxManagerBytes < (Capture.environmentOutput chunks.flatten).length then .error Capture.tooMuch
      else Capture.decoded (Capture.environmentOutput chunks.flatten)) ∧
    ∀ text, Capture.read .units names chunks = .ok text ↔
      Capture.blocksOf chunks.flatten = segments chunks.flatten ∧ Complete names (segments chunks.flatten) ∧
      Octets.decodeStrict (selection names (segments chunks.flatten)) = some text := by
  refine ⟨fun mode => ?_, Capture.read_environment, fun text => read_units_eq_ok⟩
  have hflatten : [chunks.flatten].flatten = chunks.flatten := by simp
  cases mode
  case environment => rw [Capture.read_environment, Capture.read_environment, hflatten]
  case units       => rw [Capture.read_units, Capture.read_units, hflatten]
  case all         => rw [Capture.read_all, Capture.read_all, hflatten]

-- A target that is cut in the middle of its lines.
theorem selection_unchunked_idle :
    (Capture.read .units idleNames [idleTarget.take 50, idleTarget.drop 50 ++ [newline]]).toOption =
      Octets.decodeStrict (idleTarget ++ [newline, newline]) := by
  obtain ⟨hcomplete, hselection⟩ := idle_complete
  have hflatten : [idleTarget.take 50, idleTarget.drop 50 ++ [newline]].flatten = idleTarget ++ [newline] := by
    simp [← List.append_assoc]
  have hsegments : segments (idleTarget ++ [newline]) = [idleTarget] := by decide +kernel
  have hblocks : Capture.blocksOf (idleTarget ++ [newline]) = [idleTarget] := by
    rw [Capture.blocksOf, Capture.separated_of_none (by decide +kernel)]
    decide +kernel
  cases htext : Octets.decodeStrict (idleTarget ++ [newline, newline])
  case none      => exact absurd htext (by decide +kernel)
  case some text =>
    have hread := ((selection_unchunked idleNames
      [idleTarget.take 50, idleTarget.drop 50 ++ [newline]]).right.right text).mpr
    rw [hflatten, hsegments, hblocks, hselection] at hread
    rw [hread ⟨rfl, hcomplete, htext⟩]
    rfl

-- Bytes that are no text are refused with another error.
theorem not_unchunked_malformed :
    Capture.read .environment [] [("HOME=" : Octets), [Octets.octet 0xff]] = .error .unicode ∧
    ¬∀ mode names chunks, (∃ text, Capture.read mode names chunks = .ok text) ∨
      ∃ message, Capture.read mode names chunks = .error (.deployment message) := by
  have hread : Capture.read .environment [] [("HOME=" : Octets), [Octets.octet 0xff]] = .error .unicode := by
    rw [Capture.read_environment]
    decide
  refine ⟨hread, fun h => ?_⟩
  obtain ⟨text, htext⟩ | ⟨message, hmessage⟩ := h .environment [] [("HOME=" : Octets), [Octets.octet 0xff]]
  · cases hread.symm.trans htext
  · cases hread.symm.trans hmessage

-- A selected key and its newline may arrive in parts.
example : Capture.read .environment [] [("HO" : Octets), ("ME=/a\nPATH=/b\nX" : Octets)] =
    .ok ("HOME=/a\n" : String) := by
  rw [Capture.read_environment]
  decide

end Theorem

end Deployment
