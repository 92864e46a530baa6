import EmailWatcher.Deployment.Capture
import EmailWatcher.Library.Chunks

-- What is selected of the output of the user manager, in whatever chunks it arrives.
namespace Deployment

open Octets (newline)

namespace Capture

section Lines

-- What is kept of a line that has ended, and of one that may go on.
def ended (line : Octets) : Octets :=
  if isSelected line then line ++ [newline] else []

def held (line : Octets) : Octets :=
  if isSelected line then line else []

-- The lines that begin with a selected key, each with its newline if it has one.
def selectedLines : List Octets → Octets
  | []            => []
  | [line]        => held line
  | line :: lines => ended line ++ selectedLines lines

-- The output so far and the line that has begun, behind more pieces of lines.
def advance (x : Octets × Octets) : List Octets → Octets × Octets
  | []      => x
  | [p]     => (x.fst, x.snd ++ p)
  | p :: ps => advance (x.fst ++ ended (x.snd ++ p), []) ps

def size (x : Octets × Octets) : Nat :=
  (x.fst ++ held x.snd).length

def atLine (names : List Text) (x : Octets × Octets) : Capture where
  mode         := .environment
  names        := names
  output       := x.fst
  pending      := if isSelected x.snd || mayBeSelected x.snd then x.snd else []
  skipLine     := !isSelected x.snd && !mayBeSelected x.snd
  selectedLine := isSelected x.snd
  scratch      := []

variable {names : List Text} {x : Octets × Octets} {line more : Octets} {ps qs : List Octets} {chunk : Octets}

theorem isSelected_iff : isSelected line ↔ ∃ key ∈ environmentPrefixes, key <+: line := by
  simp [isSelected]

theorem mayBeSelected_iff : mayBeSelected line ↔ ∃ key ∈ environmentPrefixes, line <+: key := by
  simp [mayBeSelected]

theorem isSelected_append (h : isSelected line) : isSelected (line ++ more) := by
  obtain ⟨key, hkey, hline⟩ := isSelected_iff.mp h
  exact isSelected_iff.mpr ⟨key, hkey, hline.trans (List.prefix_append _ _)⟩

-- A line that begins like no key is not selected, however it goes on.
theorem not_selected_append (h : isSelected line = false) (hm : mayBeSelected line = false) :
    isSelected (line ++ more) = false ∧ mayBeSelected (line ++ more) = false := by
  rw [← Bool.not_eq_true, isSelected_iff] at h ⊢
  rw [← Bool.not_eq_true, mayBeSelected_iff] at hm ⊢
  constructor
  · rintro ⟨key, hkey, hline⟩
    obtain hbefore | hbehind := List.prefix_or_prefix_of_prefix hline (List.prefix_append line more)
    · exact h ⟨key, hkey, hbefore⟩
    · exact hm ⟨key, hkey, hbehind⟩
  · rintro ⟨key, hkey, hline⟩
    exact hm ⟨key, hkey, (List.prefix_append line more).trans hline⟩

theorem length_held_le : (held line).length ≤ (held (line ++ more)).length := by
  rw [held, held]
  split
  case isTrue h  => rw [if_pos (isSelected_append h)]; simp
  case isFalse h => simp

theorem length_held_le_ended : (held line).length ≤ (ended line).length := by
  rw [held, ended]
  split <;> simp

theorem held_nil : held [] = [] := by
  decide

theorem size_le_advance : size x ≤ size (advance x ps) := by
  induction ps generalizing x
  case nil          => exact le_rfl
  case cons p ps ih =>
    have hheld : size x ≤ size (x.fst, x.snd ++ p) := by
      simpa [size] using length_held_le
    cases ps
    case nil       => exact hheld
    case cons q qs =>
      have hended : size (x.fst, x.snd ++ p) ≤ size (x.fst ++ ended (x.snd ++ p), []) := by
        simpa [size, held_nil] using length_held_le_ended
      exact (hheld.trans hended).trans ih

theorem checkSize_eq {n : Nat} : checkSize n = if maxManagerBytes < n then .error tooMuch else .ok () :=
  rfl

theorem piece_eq (h : size x ≤ maxManagerBytes) (p : Octets) : (atLine names x).piece p =
    if maxManagerBytes < size (x.fst, x.snd ++ p) then .error tooMuch else .ok (atLine names (x.fst, x.snd ++ p)) := by
  obtain ⟨output, line⟩ := x
  cases hselected : isSelected line
  case true  =>
    have hlonger : isSelected (line ++ p) = true := isSelected_append hselected
    simp only [piece, atLine, size, held, hselected, hlonger, checkSize_eq, Bool.not_true, Bool.false_and,
      Bool.true_or, Bool.false_eq_true, if_true, if_false, List.length_append]
    split <;> rfl
  case false =>
    have hsize : output.length ≤ maxManagerBytes := by simpa [size, held, hselected] using h
    cases hmay : mayBeSelected line
    case false =>
      have hnot : isSelected (line ++ p) = false ∧ mayBeSelected (line ++ p) = false :=
        not_selected_append hselected hmay
      simp [piece, atLine, size, held, hselected, hmay, hnot, Nat.not_lt.mpr hsize]
    case true  =>
      cases hlonger : isSelected (line ++ p)
      case true  =>
        simp only [piece, atLine, size, held, hselected, hmay, hlonger, checkSize_eq, Bool.not_true, Bool.and_false,
          Bool.or_true, Bool.true_or, Bool.false_and, Bool.false_eq_true, if_true, if_false,
          List.length_append]
        split <;> rfl
      case false =>
        simp only [piece, atLine, size, held, hselected, hmay, hlonger, Bool.not_true, Bool.and_false,
          Bool.false_or, Bool.or_true, Bool.false_eq_true, if_true, if_false, List.append_nil,
          Nat.not_lt.mpr hsize, Bool.not_false, Bool.true_and]
        cases mayBeSelected (line ++ p) <;> rfl

theorem fresh : isSelected [] = false ∧ mayBeSelected [] = true := by
  decide

theorem endLine_eq (h : size x ≤ maxManagerBytes) : (atLine names x).endLine =
    if maxManagerBytes < (x.fst ++ ended x.snd).length then .error tooMuch
    else .ok (atLine names (x.fst ++ ended x.snd, [])) := by
  obtain ⟨output, line⟩ := x
  obtain ⟨hnone, hmay⟩ := fresh
  cases hselected : isSelected line
  case true  =>
    simp only [endLine, atLine, retain, ended, hselected, hnone, hmay, checkSize_eq, Bool.not_false, Bool.not_true,
      Bool.and_false, Bool.true_or, if_true, List.length_append]
    split <;> rfl
  case false =>
    have hsize : output.length ≤ maxManagerBytes := by simpa [size, held, hselected] using h
    simp [endLine, atLine, ended, hselected, hnone, hmay, Nat.not_lt.mpr hsize]

-- A capture does not fail before what it keeps exceeds the limit, and never later.
theorem pieces_eq (h : size x ≤ maxManagerBytes) (hps : ps ≠ []) : (atLine names x).pieces ps =
    if maxManagerBytes < size (advance x ps) then .error tooMuch else .ok (atLine names (advance x ps)) := by
  induction ps generalizing x
  case nil          => exact absurd rfl hps
  case cons p ps ih =>
    cases ps
    case nil       => exact piece_eq h p
    case cons q qs =>
      obtain ⟨y, hy⟩ : ∃ y, y = (x.fst, x.snd ++ p) := ⟨_, rfl⟩
      obtain ⟨z, hz⟩ : ∃ z, z = (y.fst ++ ended y.snd, ([] : Octets)) := ⟨_, rfl⟩
      have hadvance : advance x (p :: q :: qs) = advance z (q :: qs) := by rw [hz, hy]; rfl
      have hzsize : size z = (y.fst ++ ended y.snd).length := by rw [hz, size, held_nil, List.append_nil]
      have hyz : size y ≤ size z := by
        rw [hzsize, size, List.length_append, List.length_append]
        exact Nat.add_le_add_left length_held_le_ended _
      have hlarger : size z ≤ size (advance z (q :: qs)) := size_le_advance
      have hpieces : (atLine names x).pieces (p :: q :: qs) =
          ((atLine names x).piece p >>= fun c => c.endLine >>= fun c => c.pieces (q :: qs)) := rfl
      rw [hadvance, hpieces, piece_eq h p, ← hy]
      by_cases hline : maxManagerBytes < size y
      case pos => rw [if_pos hline, if_pos (hline.trans_le (hyz.trans hlarger))]; rfl
      case neg =>
        rw [if_neg hline]
        change ((atLine names y).endLine >>= fun c => c.pieces (q :: qs)) = _
        rw [endLine_eq (Nat.not_lt.mp hline), ← hzsize, ← hz]
        by_cases hended : maxManagerBytes < size z
        case pos => rw [if_pos hended, if_pos (hended.trans_le hlarger)]; rfl
        case neg =>
          rw [if_neg hended]
          exact ih (Nat.not_lt.mp hended) (List.cons_ne_nil _ _)

theorem advance_modifyHead {b : Octet} (hps : ps ≠ []) :
    advance x (ps.modifyHead (List.cons b)) = advance (x.fst, x.snd ++ [b]) ps := by
  cases ps
  case nil       => exact absurd rfl hps
  case cons q qs => cases qs <;> simp [advance]

def readByte (x : Octets × Octets) (b : Octet) : Octets × Octets :=
  if b = newline then (x.fst ++ ended x.snd, []) else (x.fst, x.snd ++ [b])

-- The pieces of a chunk are read like its bytes, one after the other.
theorem advance_splitOn (x : Octets × Octets) : advance x (chunk.splitOn newline) = chunk.foldl readByte x := by
  induction chunk generalizing x
  case nil          => simp [advance]
  case cons b bs ih =>
    rw [List.splitOn_cons_eq_if_modifyHead, List.foldl_cons, ← ih, readByte]
    have hne := List.splitOn_ne_nil newline bs
    by_cases hb : b = newline
    case pos =>
      obtain ⟨q, qs, hqs⟩ := List.exists_cons_of_ne_nil hne
      simp [hb, hqs, advance]
    case neg =>
      simp only [beq_iff_eq, hb, if_false]
      exact advance_modifyHead hne

theorem selectedLines_eq {output : Octets} (hps : ps ≠ []) :
    (advance (output, []) ps).fst ++ held (advance (output, []) ps).snd = output ++ selectedLines ps := by
  induction ps generalizing output
  case nil          => exact absurd rfl hps
  case cons p ps ih =>
    cases ps
    case nil       => rfl
    case cons q qs =>
      have hlines : selectedLines (p :: q :: qs) = ended p ++ selectedLines (q :: qs) := rfl
      rw [hlines, ← List.append_assoc]
      exact ih (List.cons_ne_nil _ _)

-- The state of a capture behind some bytes
def afterLines (names : List Text) (bytes : Octets) : Except Failure Capture :=
  let x := bytes.foldl readByte ([], [])
  if maxManagerBytes < size x then .error tooMuch else .ok (atLine names x)

theorem size_le_foldl : size x ≤ size (chunk.foldl readByte x) := by
  rw [← advance_splitOn]
  exact size_le_advance

theorem environment_tracks : Chunks.Tracks (initial .environment names) feed (afterLines names) where
  start := rfl
  next stream chunk := by
    rw [afterLines, afterLines, List.foldl_append]
    obtain ⟨x, hx⟩ : ∃ x, stream.foldl readByte ([], []) = x := ⟨_, rfl⟩
    rw [hx]
    by_cases hsize : maxManagerBytes < size x
    case pos =>
      simp only [hsize, hsize.trans_le size_le_foldl, if_true]
      rfl
    case neg =>
      simp only [hsize, if_false]
      change (atLine names x).pieces (chunk.splitOn newline) = _
      rw [pieces_eq (Nat.not_lt.mp hsize) (List.splitOn_ne_nil _ _), advance_splitOn]

-- What the environment mode makes of a whole output.
def environmentOutput (bytes : Octets) : Octets :=
  selectedLines (bytes.splitOn newline)

def decoded (bytes : Octets) : Except Failure Text :=
  match Octets.decodeStrict bytes with
  | none      => .error .unicode
  | some text => .ok text

theorem finish_environment (h : size x ≤ maxManagerBytes) :
    (atLine names x).finish = decoded (x.fst ++ held x.snd) := by
  obtain ⟨output, line⟩ := x
  rw [finish]
  cases hselected : isSelected line
  case true  =>
    have hsize : output.length + line.length ≤ maxManagerBytes := by simpa [size, held, hselected] using h
    simp only [atLine, retain, checkSize_eq, held, hselected, Bool.true_or, if_true, Nat.not_lt.mpr hsize, if_false]
    rfl
  case false =>
    simp only [atLine, held, hselected, Bool.false_eq_true, if_false, List.append_nil]
    rfl

theorem read_environment {chunks : List Octets} : read .environment names chunks =
    if maxManagerBytes < (environmentOutput chunks.flatten).length then .error tooMuch
    else decoded (environmentOutput chunks.flatten) := by
  obtain ⟨x, hx⟩ : ∃ x, chunks.flatten.foldl readByte ([], []) = x := ⟨_, rfl⟩
  have hlines : x.fst ++ held x.snd = environmentOutput chunks.flatten := by
    rw [← hx, ← advance_splitOn]
    exact selectedLines_eq (List.splitOn_ne_nil _ _)
  rw [read, environment_tracks.foldlM, afterLines, hx, ← hlines, ← size]
  split
  case isTrue hlarge  => rfl
  case isFalse hsmall => exact finish_environment (Nat.not_lt.mp hsmall)

end Lines

section Blocks

-- The blocks that have ended, and what is behind them.
def separated (bytes : Octets) : List Octets × Octets :=
  match _h : partition bytes with
  | none   => ([], bytes)
  | some x => (x.fst :: (separated x.snd).fst, (separated x.snd).snd)
termination_by bytes.length
decreasing_by all_goals exact partition_length _h

def isLong (block : Octets) : Bool :=
  maxManagerBytes < block.length

-- Whether a block is too long, or what may become one is.
def tooLong (bytes : Octets) : Bool :=
  (separated bytes).fst.any isLong || isLong (rstrip (separated bytes).snd)

-- The blocks of a whole output
def blocksOf (bytes : Octets) : List Octets :=
  ((separated bytes).fst ++ [rstrip (separated bytes).snd]).filter (· ≠ [])

variable {names : List Text} {bytes more rest : Octets} {c : Capture}

theorem separated_of_none (h : partition bytes = none) : separated bytes = ([], bytes) := by
  rw [separated]
  split
  case h_1       => rfl
  case h_2 x h'  => rw [h] at h'; cases h'

theorem separated_of_some {x : Octets × Octets} (h : partition bytes = some x) :
    separated bytes = (x.fst :: (separated x.snd).fst, (separated x.snd).snd) := by
  rw [separated]
  split
  case h_1 h'   => rw [h] at h'; cases h'
  case h_2 y h' =>
    obtain rfl := Option.some.inj (h.symm.trans h')
    rfl

theorem partition_append {x : Octets × Octets} (h : partition bytes = some x) :
    partition (bytes ++ more) = some (x.fst, x.snd ++ more) := by
  induction bytes generalizing x
  case nil          => cases h
  case cons b bs ih =>
    rw [partition] at h
    rw [List.cons_append, partition]
    split at h
    case isTrue hb  =>
      obtain ⟨rfl, hhead⟩ := hb
      obtain rfl := Option.some.inj h
      rw [List.eq_cons_of_mem_head? hhead]
      rfl
    case isFalse hb =>
      obtain ⟨y, hy, rfl⟩ := Option.map_eq_some_iff.mp h
      have hne : bs ≠ [] := by
        rintro rfl
        cases hy
      rw [List.head?_append_of_ne_nil _ hne, if_neg hb, ih hy]
      rfl

theorem separated_rest : partition (separated bytes).snd = none := by
  induction bytes using separated.induct
  case case1 bytes h      => rwa [separated_of_none h]
  case case2 bytes x h ih => rwa [separated_of_some h]

-- It makes no difference for the blocks whether their output has been cut.
theorem separated_append : separated (bytes ++ more) =
    ((separated bytes).fst ++ (separated ((separated bytes).snd ++ more)).fst,
      (separated ((separated bytes).snd ++ more)).snd) := by
  induction bytes using separated.induct
  case case1 bytes h      => rw [separated_of_none h, List.nil_append]
  case case2 bytes x h ih =>
    rw [separated_of_some h, separated_of_some (partition_append h), ih]
    rfl

theorem partition_ne_none : partition (bytes ++ newline :: newline :: more) ≠ none := by
  induction bytes
  case nil          => simp [partition]
  case cons b bs ih =>
    rw [List.cons_append, partition]
    split
    case isTrue  => exact Option.some_ne_none _
    case isFalse => exact mt Option.map_eq_none_iff.mp ih

theorem rstrip_append : (rstrip bytes).length ≤ (rstrip (bytes ++ more)).length := by
  rw [rstrip, rstrip, List.rdropWhile, List.rdropWhile, List.length_reverse, List.length_reverse, List.reverse_append,
    List.dropWhile_append]
  split
  case isTrue  => exact le_rfl
  case isFalse =>
    rw [List.length_append]
    exact (List.dropWhile_suffix _).length_le.trans (Nat.le_add_left _ _)

-- What has not ended only gets longer.
theorem rstrip_length_le (h : partition rest = none) :
    (∃ x, partition (rest ++ more) = some x ∧ (rstrip rest).length ≤ x.fst.length) ∨
    partition (rest ++ more) = none ∧ (rstrip rest).length ≤ (rstrip (rest ++ more)).length := by
  have hle : (rstrip rest).length ≤ rest.length := (List.rdropWhile_prefix _ _).length_le
  cases hmore : partition (rest ++ more)
  case none   => exact .inr ⟨rfl, rstrip_append⟩
  case some x =>
    refine .inl ⟨x, rfl, ?_⟩
    obtain ⟨as, hx, -⟩ | ⟨cs, rfl, hcs⟩ := List.append_eq_append_iff.mp (partition_eq hmore)
    · rw [hx, List.length_append]
      omega
    · cases cs
      case nil       => simpa using hle
      case cons c cs =>
        rw [List.cons_append, List.cons.injEq] at hcs
        rw [← hcs.left] at h ⊢
        cases cs
        case nil        =>
          rw [rstrip, List.rdropWhile_concat_pos _ _ _ (by simp)]
          exact (List.rdropWhile_prefix _ _).length_le
        case cons c' cs =>
          have hc' : newline = c' := (List.cons.inj hcs.right).left
          rw [← hc'] at h
          exact absurd h partition_ne_none

theorem isLong_of_le {block block' : Octets} (h : block.length ≤ block'.length) (hlong : isLong block) :
    isLong block' := by
  simp only [isLong, decide_eq_true_eq] at hlong ⊢
  exact hlong.trans_le h

theorem tooLong_append (h : tooLong bytes) : tooLong (bytes ++ more) := by
  rw [tooLong, separated_append, Bool.or_eq_true, List.any_append, Bool.or_eq_true]
  rw [tooLong, Bool.or_eq_true] at h
  obtain hended | hrest := h
  · exact .inl (.inl hended)
  · have hlonger := @rstrip_length_le more (separated bytes).snd separated_rest
    obtain ⟨x, hx, hle⟩ | ⟨hnone, hle⟩ := hlonger
    · rw [separated_of_some hx, List.any_cons, Bool.or_eq_true]
      exact .inl (.inr (.inl (isLong_of_le hle hrest)))
    · rw [separated_of_none hnone]
      exact .inr (isLong_of_le hle hrest)

theorem record_eq {block : Octets} : c.record block =
    if isLong block then .error tooMuch else .ok { c with scratch := c.scratch ++ [block].filter (· ≠ []) } := by
  simp only [record, checkSize_eq, isLong, decide_eq_true_eq]
  split
  case isTrue  => rfl
  case isFalse =>
    by_cases hempty : block = []
    · simp [hempty]
    · simp [hempty]

theorem blocks_of_none (h : partition c.pending = none) : blocks c = .ok c := by
  rw [blocks]
  split
  case h_1      => rfl
  case h_2 x h' => rw [h] at h'; cases h'

theorem blocks_of_some {x : Octets × Octets} (h : partition c.pending = some x) :
    blocks c = (c.record x.fst >>= fun c => blocks { c with pending := x.snd }) := by
  rw [blocks]
  split
  case h_1 h'   => rw [h] at h'; cases h'
  case h_2 y h' =>
    obtain rfl := Option.some.inj (h.symm.trans h')
    rfl

theorem blocks_eq : blocks c =
    if (separated c.pending).fst.any isLong then .error tooMuch
    else .ok { c with
      pending := (separated c.pending).snd
      scratch := c.scratch ++ (separated c.pending).fst.filter (· ≠ []) } := by
  induction c using blocks.induct
  case case1 c h      => simp [blocks_of_none h, separated_of_none h]
  case case2 c x h ih =>
    rw [blocks_of_some h, record_eq, separated_of_some h, List.any_cons]
    cases hlong : isLong x.fst
    case true  => rfl
    case false =>
      simp only [Bool.false_eq_true, if_false, Bool.false_or]
      refine (ih _).trans ?_
      simp only [List.append_assoc, ← List.filter_append, List.singleton_append]

def inBlocks (names : List Text) (bytes : Octets) : Capture where
  mode         := .units
  names        := names
  output       := []
  pending      := (separated bytes).snd
  skipLine     := false
  selectedLine := false
  scratch      := (separated bytes).fst.filter (· ≠ [])

def afterBlocks (names : List Text) (bytes : Octets) : Except Failure Capture :=
  if tooLong bytes then .error tooMuch else .ok (inBlocks names bytes)

theorem separated_nil : separated [] = ([], []) :=
  separated_of_none rfl

theorem units_tracks : Chunks.Tracks (initial .units names) feed (afterBlocks names) where
  start := by
    rw [afterBlocks, tooLong, inBlocks, separated_nil]
    rfl
  next stream chunk := by
    by_cases hlong : tooLong stream
    case pos =>
      rw [afterBlocks, afterBlocks, if_pos hlong, if_pos (tooLong_append hlong)]
      rfl
    case neg =>
      rw [afterBlocks, if_neg hlong]
      change (blocks { inBlocks names stream with pending := (separated stream).snd ++ chunk } >>= fun c => do
        checkSize (rstrip c.pending).length
        return c) = _
      have hended : (separated stream).fst.any isLong = false := by
        rw [tooLong, Bool.or_eq_true, not_or] at hlong
        exact Bool.eq_false_iff.mpr hlong.left
      obtain ⟨es, hes⟩ : ∃ es, separated ((separated stream).snd ++ chunk) = es := ⟨_, rfl⟩
      have happend : separated (stream ++ chunk) = ((separated stream).fst ++ es.fst, es.snd) :=
        hes ▸ separated_append
      rw [blocks_eq, hes, afterBlocks, tooLong, inBlocks, inBlocks, happend, List.any_append, hended, Bool.false_or,
        List.filter_append]
      cases hlonger : es.fst.any isLong
      case true  => rfl
      case false =>
        change (checkSize (rstrip es.snd).length >>= fun _ => pure _) = _
        rw [checkSize_eq, Bool.false_or]
        simp only [isLong, decide_eq_true_eq]
        split <;> rfl

theorem rstrip_rest : (separated bytes).fst.filter (· ≠ []) ++ [rstrip (separated bytes).snd].filter (· ≠ []) =
    blocksOf bytes := by
  rw [blocksOf, List.filter_append]

theorem finish_units (h : c.mode = .units) :
    c.finish = (c.record (rstrip c.pending) >>= fun c => c.graph >>= fun c => decoded c.output) := by
  rw [finish, h]
  rfl

theorem read_units {chunks : List Octets} : read .units names chunks =
    if tooLong chunks.flatten then .error tooMuch
    else { inBlocks names chunks.flatten with scratch := blocksOf chunks.flatten }.graph >>= fun c =>
      decoded c.output := by
  rw [read, units_tracks.foldlM, afterBlocks]
  split
  case isTrue        => rfl
  case isFalse hlong =>
    have hrest : isLong (rstrip (separated chunks.flatten).snd) = false := by
      rw [tooLong, Bool.or_eq_true, not_or] at hlong
      exact Bool.eq_false_iff.mpr hlong.right
    change (inBlocks names chunks.flatten).finish = _
    rw [finish_units rfl, record_eq, inBlocks, hrest, ← rstrip_rest]
    rfl

end Blocks

section All

variable {names : List Text} {bytes : Octets}

def afterAll (names : List Text) (bytes : Octets) : Except Failure Capture :=
  if maxManagerBytes < bytes.length then .error tooMuch else .ok { initial .all names with output := bytes }

theorem all_tracks : Chunks.Tracks (initial .all names) feed (afterAll names) where
  start := rfl
  next stream chunk := by
    rw [afterAll, afterAll, List.length_append]
    by_cases hlong : maxManagerBytes < stream.length
    case pos =>
      rw [if_pos hlong, if_pos (hlong.trans_le (Nat.le_add_right _ _))]
      rfl
    case neg =>
      rw [if_neg hlong]
      change (checkSize (stream.length + chunk.length) >>= fun _ => pure _) = _
      rw [checkSize_eq]
      split <;> rfl

theorem read_all {chunks : List Octets} : read .all names chunks =
    if maxManagerBytes < chunks.flatten.length then .error tooMuch else decoded chunks.flatten := by
  rw [read, all_tracks.foldlM, afterAll]
  split <;> rfl

end All

end Capture

end Deployment
