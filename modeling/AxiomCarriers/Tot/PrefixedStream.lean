import AxiomCarriers.Lib.Bytes
import AxiomCarriers.Lib.Reader

/-!
# The stream with its first bytes put back

`handle_conn` reads four bytes of a connection to see what it is, and the parser of the WebSocket
handshake has to see them again.  `PrefixedStream` (`tot/src/main.rs`) returns them before it polls
the socket.  It is faithful to its prefix and the content of the socket as long as the socket is
faithful to its own (`faithful_pollRead`).
-/

namespace Tot

open Bytes Reader

variable {σ ω : Type*}

/-- The stream over an inner one in the state `σ`; `head` is the field `prefix`. -/
structure PrefixedStream (σ : Type*) where
  head : Bytes
  pos : ℕ
  inner : σ
  deriving DecidableEq

namespace PrefixedStream

def new (head : Bytes) (inner : σ) : PrefixedStream σ := ⟨head, 0, inner⟩

/-- `poll_read`; `poll` is the one of the inner stream. -/
def pollRead (poll : σ → ω → ℕ → Poll UInt8 × σ) (s : PrefixedStream σ) (w : ω) (cap : ℕ) :
    Poll UInt8 × PrefixedStream σ :=
  if s.pos < s.head.length then
    let remaining := s.head.drop s.pos
    let n := min remaining.length cap
    (.ready (remaining.take n), { s with pos := s.pos + n })
  else
    let (result, inner) := poll s.inner w cap
    (result, { s with inner })

/-- The bytes that are still to come. -/
def content (inside : σ → Stream'.Seq UInt8) (s : PrefixedStream σ) : Stream'.Seq UInt8 :=
  Stream'.Seq.append (s.head.drop s.pos) (inside s.inner)

variable {poll : σ → ω → ℕ → Poll UInt8 × σ} {inside : σ → Stream'.Seq UInt8}
  {s : PrefixedStream σ} {w : ω} {cap : ℕ}

/-- A poll takes from the rest of the prefix, or the prefix is used up and it is one of the inner
stream. -/
theorem pollRead_cases (poll : σ → ω → ℕ → Poll UInt8 × σ) (s : PrefixedStream σ) (w : ω)
    (cap : ℕ) :
    (∃ n, n = min (s.head.drop s.pos).length cap ∧ s.head.drop s.pos ≠ [] ∧
      s.pollRead poll w cap =
        (.ready ((s.head.drop s.pos).take n), { s with pos := s.pos + n })) ∨
    (s.head.drop s.pos = [] ∧
      s.pollRead poll w cap =
        ((poll s.inner w cap).1, { s with inner := (poll s.inner w cap).2 })) := by
  unfold pollRead
  split
  · rename_i hpos
    exact Or.inl ⟨_, rfl, by simpa using hpos, rfl⟩
  · rename_i hpos
    exact Or.inr ⟨List.drop_eq_nil_of_le (Nat.le_of_not_lt hpos), rfl⟩

/-- Polls of the prefix and then of the inner stream return the one and then the other. -/
theorem faithful_pollRead (h : Faithful poll inside) :
    Faithful (pollRead poll) (content inside) where
  content_eq s w cap := by
    rcases s.pollRead_cases poll w cap with ⟨n, -, -, hpoll⟩ | ⟨hdrop, hpoll⟩
    · simp only [hpoll, Poll.bytes, content]
      rw [← Stream'.Seq.append_assoc, ← Stream'.Seq.ofList_append, ← List.drop_drop,
        List.take_append_drop]
    · simp only [hpoll, content, hdrop, Stream'.Seq.ofList_nil, Stream'.Seq.nil_append]
      exact h.content_eq s.inner w cap
  length_le s w cap := by
    rcases s.pollRead_cases poll w cap with ⟨n, rfl, -, hpoll⟩ | ⟨-, hpoll⟩
    · rw [hpoll]
      exact (List.length_take_le _ _).trans (Nat.min_le_right _ _)
    · rw [hpoll]
      exact h.length_le s.inner w cap
  end_of_ready s w cap hcap hend := by
    rcases s.pollRead_cases poll w cap with ⟨n, rfl, hdrop, hpoll⟩ | ⟨hdrop, hpoll⟩
    · -- The rest of the prefix and the room are not empty, so that something is returned.
      have hlen := List.length_pos_of_ne_nil hdrop
      simp only [hpoll, Poll.ready.injEq, List.take_eq_nil_iff, hdrop, or_false] at hend
      omega
    · rw [hpoll] at hend
      rw [content, hdrop, h.end_of_ready s.inner w cap hcap hend, Stream'.Seq.append_nil]
      rfl

end PrefixedStream

/-- Whatever the reads find and have room for: what they return and what is left is the prefix and
the inner content, and a read that has room and returns nothing comes after all of both. -/
theorem prefixedStream_transparent {σ ω : Type} {poll : σ → ω → ℕ → Poll UInt8 × σ}
    {inside : σ → Stream'.Seq UInt8} (h : Faithful poll inside) (head : Bytes) (inner : σ)
    (reads : List (ω × ℕ)) :
    Stream'.Seq.append head (inside inner) =
      Stream'.Seq.append
        (returned (PrefixedStream.pollRead poll) (PrefixedStream.new head inner) reads)
        (PrefixedStream.content inside
          (after (PrefixedStream.pollRead poll) (PrefixedStream.new head inner) reads)) ∧
    ∀ w cap, 0 < cap →
      (PrefixedStream.pollRead poll
        (after (PrefixedStream.pollRead poll) (PrefixedStream.new head inner) reads) w cap).1 =
        .ready [] →
      Stream'.Seq.append head (inside inner) =
        returned (PrefixedStream.pollRead poll) (PrefixedStream.new head inner) reads :=
  ⟨(PrefixedStream.faithful_pollRead h).content_eq_returned (PrefixedStream.new head inner) reads,
    fun _ _ hcap hend => (PrefixedStream.faithful_pollRead h).content_eq_of_end hcap hend⟩

/-- The four bytes of the demux over a socket with two chunks, read with room for three, none, four
and eight bytes. -/
theorem prefixedStream_transparent_get :
    returned (PrefixedStream.pollRead chunkPoll)
        (PrefixedStream.new (ascii "GET ") [ascii "/int", ascii "ake"])
        [((), 3), ((), 0), ((), 4), ((), 8), ((), 8)] = ascii "GET /intake" ∧
      Stream'.Seq.append (ascii "GET ") (ascii "/intake" : Stream'.Seq UInt8) =
        returned (PrefixedStream.pollRead chunkPoll)
          (PrefixedStream.new (ascii "GET ") [ascii "/int", ascii "ake"])
          [((), 3), ((), 0), ((), 4), ((), 8), ((), 8)] :=
  ⟨by decide, (prefixedStream_transparent faithful_chunkPoll (ascii "GET ")
    [ascii "/int", ascii "ake"] [((), 3), ((), 0), ((), 4), ((), 8), ((), 8)]).2 () 1 (by decide)
    (by decide)⟩

end Tot
