import Mathlib.Logic.Basic

-- A reader that is fed a stream in chunks.
namespace Chunks

variable {α σ ε : Type}

-- What has been fed says in which state the reader is.
structure Tracks (init : σ) (feed : σ → List α → Except ε σ) (state : List α → Except ε σ) : Prop where
  start : state [] = .ok init
  next  : ∀ stream chunk, (state stream >>= fun s => feed s chunk) = state (stream ++ chunk)

variable {init : σ} {feed : σ → List α → Except ε σ} {state : List α → Except ε σ} {chunks : List (List α)}
  {stream : List α}

theorem Tracks.foldlM_from (h : Tracks init feed state) :
    (state stream >>= fun s => chunks.foldlM feed s) = state (stream ++ chunks.flatten) := by
  induction chunks generalizing stream
  case nil                 =>
    rw [List.flatten_nil, List.append_nil]
    exact bind_pure (state stream)
  case cons chunk chunks ih =>
    simp only [List.foldlM_cons, List.flatten_cons]
    rw [← List.append_assoc, ← ih, ← h.next, bind_assoc]

-- It makes no difference where the stream is cut.
theorem Tracks.foldlM (h : Tracks init feed state) : chunks.foldlM feed init = state chunks.flatten := by
  rw [← List.nil_append chunks.flatten, ← h.foldlM_from, h.start]
  rfl

end Chunks
