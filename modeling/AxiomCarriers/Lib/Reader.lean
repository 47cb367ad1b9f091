import Mathlib.Data.Seq.Basic

/-!
# Readers that are polled

A reader is polled with a buffer that has room for so many elements, and puts some into it, fails,
or has nothing yet; what is there depends on circumstances `ω` that the reader does not rule.  It is
`Faithful` to a content, which may be infinite, when it returns the content in order, each element
once, and returns nothing into a buffer with room only at the end of it.  `content_eq_returned` and
`content_eq_of_end` carry this to any sequence of polls.
-/

namespace Reader

variable {σ ω β : Type*}

/-- What a poll gives: the elements put into the buffer, an error, or nothing yet. -/
inductive Poll (β : Type*)
  | ready (bs : List β)
  | failed
  | pending
  deriving DecidableEq

def Poll.bytes : Poll β → List β
  | .ready bs => bs
  | .failed | .pending => []

section

variable (poll : σ → ω → ℕ → Poll β × σ)

/-- What the polls give, one after another, each with the circumstances and the room it finds. -/
def results : σ → List (ω × ℕ) → List (Poll β)
  | _, [] => []
  | s, (w, cap) :: reads => (poll s w cap).1 :: results (poll s w cap).2 reads

/-- The reader after the polls. -/
def after : σ → List (ω × ℕ) → σ
  | s, [] => s
  | s, (w, cap) :: reads => after (poll s w cap).2 reads

/-- What the polls have returned together. -/
def returned (s : σ) (reads : List (ω × ℕ)) : List β := (results poll s reads).flatMap Poll.bytes

/-- The polls return the content in order. -/
structure Faithful (content : σ → Stream'.Seq β) : Prop where
  content_eq : ∀ s w cap,
    content s = Stream'.Seq.append (poll s w cap).1.bytes (content (poll s w cap).2)
  length_le : ∀ s w cap, (poll s w cap).1.bytes.length ≤ cap
  end_of_ready : ∀ s w cap, 0 < cap → (poll s w cap).1 = .ready [] → content s = Stream'.Seq.nil

end

variable {poll : σ → ω → ℕ → Poll β × σ} {content : σ → Stream'.Seq β}

/-- What was returned and what is left are the content. -/
theorem Faithful.content_eq_returned (h : Faithful poll content) (s : σ) (reads : List (ω × ℕ)) :
    content s = Stream'.Seq.append (returned poll s reads) (content (after poll s reads)) := by
  induction reads generalizing s with
  | nil => exact (Stream'.Seq.nil_append _).symm
  | cons r reads ih =>
    obtain ⟨w, cap⟩ := r
    calc content s
        = Stream'.Seq.append (poll s w cap).1.bytes (content (poll s w cap).2) :=
          h.content_eq s w cap
      _ = Stream'.Seq.append (poll s w cap).1.bytes
            (Stream'.Seq.append (returned poll (poll s w cap).2 reads)
              (content (after poll (poll s w cap).2 reads))) := by rw [← ih]
      _ = _ := by
          rw [← Stream'.Seq.append_assoc, ← Stream'.Seq.ofList_append]
          rfl

/-- Where a buffer with room stays empty, the whole content was returned before. -/
theorem Faithful.content_eq_of_end (h : Faithful poll content) {s : σ} {before : List (ω × ℕ)}
    {w : ω} {cap : ℕ} (hcap : 0 < cap)
    (hend : (poll (after poll s before) w cap).1 = .ready []) :
    content s = returned poll s before := by
  rw [h.content_eq_returned s before, h.end_of_ready _ w cap hcap hend, Stream'.Seq.append_nil]

/-! ## A stream that comes in chunks -/

/-- A poll of a stream of which the chunks are left, each of them there when it is asked for.  It
returns what fits of the next one. -/
def chunkPoll : List (List β) → Unit → ℕ → Poll β × List (List β)
  | [], _, _ => (.ready [], [])
  | [] :: cs, w, cap => chunkPoll cs w cap
  | (b :: c) :: cs, _, cap => (.ready ((b :: c).take cap), (b :: c).drop cap :: cs)

theorem faithful_chunkPoll :
    Faithful (chunkPoll : List (List β) → _) fun cs => (cs.flatten : Stream'.Seq β) where
  content_eq cs w cap := by
    fun_induction chunkPoll cs w cap with
    | case1 => simp [Poll.bytes]
    | case2 cap cs ih => exact ih
    | case3 cap b c cs =>
      rw [Poll.bytes, List.flatten_cons, List.flatten_cons, ← Stream'.Seq.ofList_append,
        ← List.append_assoc, List.take_append_drop]
  length_le cs w cap := by
    fun_induction chunkPoll cs w cap with
    | case1 => exact Nat.zero_le _
    | case2 cap cs ih => exact ih
    | case3 cap b c cs => exact List.length_take_le _ _
  end_of_ready cs w cap hcap hend := by
    fun_induction chunkPoll cs w cap with
    | case1 => rfl
    | case2 cap cs ih => exact ih hcap hend
    | case3 cap b c cs =>
      obtain ⟨cap, rfl⟩ := Nat.exists_eq_succ_of_ne_zero hcap.ne'
      cases hend

/-- `read_exact` of so many elements from the chunks, and the chunks that are left; none when the
stream ends before. -/
def readExact : ℕ → List (List β) → Option (List β × List (List β))
  | 0, cs => some ([], cs)
  | _ + 1, [] => none
  | n + 1, c :: cs =>
    if n + 1 < c.length then some (c.take (n + 1), c.drop (n + 1) :: cs)
    else (readExact (n + 1 - c.length) cs).map fun r => (c ++ r.1, r.2)

/-- In whatever chunks a stream comes, `read_exact` reads its beginning and leaves the rest. -/
theorem readExact_of_flatten {cs : List (List β)} {a b : List β} (h : cs.flatten = a ++ b) :
    ∃ cs', readExact a.length cs = some (a, cs') ∧ cs'.flatten = b := by
  induction cs generalizing a with
  | nil =>
    obtain ⟨rfl, rfl⟩ := List.append_eq_nil_iff.1 h.symm
    exact ⟨[], rfl, rfl⟩
  | cons c cs ih =>
    rcases a with _ | ⟨x, a⟩
    · exact ⟨c :: cs, rfl, h⟩
    rw [List.flatten_cons] at h
    have hcut : (∃ a', x :: a = c ++ a' ∧ cs.flatten = a' ++ b) ∨
        ∃ y c', c = x :: a ++ y :: c' ∧ b = y :: c' ++ cs.flatten := by
      rcases List.append_eq_append_iff.1 h with hle | ⟨c', hc, hb⟩
      · exact Or.inl hle
      · rcases c' with _ | ⟨y, c'⟩
        · exact Or.inl ⟨[], by simp [hc], hb.symm⟩
        · exact Or.inr ⟨y, c', hc, hb⟩
    rw [List.length_cons, readExact]
    rcases hcut with ⟨a', ha', hrest⟩ | ⟨y, c', rfl, rfl⟩
    · have hlen := congrArg List.length ha'
      simp only [List.length_cons, List.length_append] at hlen
      obtain ⟨cs', hread, hcs'⟩ := ih hrest
      refine ⟨cs', ?_, hcs'⟩
      rw [if_neg (by omega), show a.length + 1 - c.length = a'.length by omega, hread, ha']
      rfl
    · -- The chunk reaches over the end of what is read.
      refine ⟨(y :: c') :: cs, ?_, rfl⟩
      rw [if_pos (by simp), ← List.length_cons, List.take_left, List.drop_left]

end Reader
