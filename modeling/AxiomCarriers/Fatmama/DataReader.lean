import AxiomCarriers.Fatmama.Smtp
import AxiomCarriers.Lib.Loop
import AxiomCarriers.Lib.Stuffing

/-!
# The DATA reader of FATMAMA

After the DATA line `readuntil` searches for the terminator, a lone dot line with the CR LF before
it.  A message that does not fit its limit is read in chunks instead, until one of them brings the
end of the terminator; what the last chunk has behind it is dropped.  Both are modelled with the
bytes as they arrive.

Whatever arrives when, the reader ends (`reader_returns`), with what `readData` says
(`returns_readData`).  So it decodes a message of a conforming client, in every chunking, exactly
where the message has a line and fits the limit or nothing follows it (`decodes_iff`): the CR LF of
an empty message is that of the DATA line, which has been read.
-/

namespace Fatmama.DataReader

open Bytes Loops

/-! ## The reader -/

/-- The buffer of the `StreamReader`, and what arrives before each of the next steps of the reader,
nothing for some; behind it the client closes its side. -/
structure Stream where
  buffer : Bytes
  arrivals : List Bytes
  deriving DecidableEq

def Stream.rest (s : Stream) : Bytes := s.buffer ++ s.arrivals.flatten

def Stream.feed : Stream → Stream
  | ⟨buffer, []⟩ => ⟨buffer, []⟩
  | ⟨buffer, a :: as⟩ => ⟨buffer ++ a, as⟩

/-- `find` from an offset on. -/
def find (sep b : Bytes) (offset : ℕ) : Option ℕ :=
  (cut sep (b.drop offset)).map fun p => offset + p.1.length

def chunkSize : ℕ := 262144

/-- In `readuntil`, which does not look again before the offset, or in the fallback with what it has
read. -/
inductive Pc
  | readuntil (offset : ℕ)
  | fallback (buf : Bytes)

/-- `readuntil` has not found the terminator: it waits, or the client has closed its side. -/
def wait (offset : ℕ) (s : Stream) : (Pc × Stream) ⊕ (Bytes × Stream) :=
  if s.arrivals = [] then .inr (s.buffer, ⟨[], []⟩) else .inl (.readuntil offset, s)

/-- One round of `readuntil` or of the fallback.  The result is the data of the message, and the
stream in which the next command is read. -/
def step : Pc × Stream → (Pc × Stream) ⊕ (Bytes × Stream)
  | (.readuntil offset, s) =>
    let s := s.feed
    if s.buffer.length < offset + terminator.length then wait offset s
    else match find terminator s.buffer offset with
      | some isep =>
        if streamLimit < isep then .inl (.fallback [], s)
        else .inr (s.buffer.take isep,
          { s with buffer := s.buffer.drop (isep + terminator.length) })
      | none =>
        let offset := s.buffer.length + 1 - terminator.length
        if streamLimit < offset then .inl (.fallback [], s) else wait offset s
  | (.fallback buf, s) =>
    let s := s.feed
    let chunk := s.buffer.take chunkSize
    if chunk = [] then
      if s.arrivals = [] then .inr (buf, s) else .inl (.fallback buf, s)
    else
      let s := { s with buffer := s.buffer.drop chunkSize }
      match cut terminator (buf ++ chunk) with
      | some (before, _) => .inr (before, s)
      | none => .inl (.fallback (buf ++ chunk), s)

/-! ## It ends -/

theorem Stream.rest_feed (s : Stream) : s.feed.rest = s.rest := by
  obtain ⟨buffer, _ | ⟨a, as⟩⟩ := s <;> simp [feed, rest]

theorem Stream.length_feed (s : Stream) : s.feed.arrivals.length ≤ s.arrivals.length ∧
    (s.feed.arrivals ≠ [] → s.feed.arrivals.length < s.arrivals.length) := by
  obtain ⟨buffer, _ | ⟨a, as⟩⟩ := s <;> simp [feed]

def measure : Pc × Stream → ℕ
  | (.readuntil _, s) => s.rest.length + s.arrivals.length + 1
  | (.fallback _, s) => s.rest.length + s.arrivals.length

theorem wait_measure {offset : ℕ} {s : Stream} {next : Pc × Stream}
    (h : wait offset s.feed = .inl next) :
    measure next < s.rest.length + s.arrivals.length + 1 := by
  obtain ⟨hle, hlt⟩ := s.length_feed
  unfold wait at h
  split_ifs at h with hne
  obtain rfl := Sum.inl.inj h
  have := hlt hne
  show s.feed.rest.length + s.feed.arrivals.length + 1 < _
  rw [s.rest_feed]
  omega

theorem step_measure (p next : Pc × Stream) (h : step p = .inl next) :
    measure next < measure p := by
  obtain ⟨pc, s⟩ := p
  obtain ⟨hle, hlt⟩ := s.length_feed
  have hfallback : ∀ buf, measure (.fallback buf, s.feed) < s.rest.length + s.arrivals.length + 1 := by
    intro buf
    show s.feed.rest.length + s.feed.arrivals.length < _
    rw [s.rest_feed]
    omega
  cases pc with
  | readuntil offset =>
    simp only [step] at h
    split at h
    · exact wait_measure h
    · split at h
      · split_ifs at h
        obtain rfl := Sum.inl.inj h
        exact hfallback []
      · split_ifs at h
        · obtain rfl := Sum.inl.inj h
          exact hfallback []
        · exact wait_measure h
  | fallback buf =>
    simp only [step] at h
    split_ifs at h with hchunk hnil
    · obtain rfl := Sum.inl.inj h
      have := hlt hnil
      show s.feed.rest.length + s.feed.arrivals.length < s.rest.length + s.arrivals.length
      rw [s.rest_feed]
      omega
    · split at h
      · cases h
      · obtain rfl := Sum.inl.inj h
        have hpos := List.length_pos_of_ne_nil hchunk
        have hlen := congrArg List.length s.rest_feed
        rw [List.length_take] at hpos
        simp only [measure, Stream.rest, List.length_append, List.length_drop] at hlen ⊢
        omega

theorem reader_returns (pc : Pc) (s : Stream) : ∃ r, Returns step (pc, s) r :=
  exists_returns measure step_measure (pc, s)

/-! ## What it returns -/

/-- Whatever comes behind the bytes, no terminator begins in them before the offset. -/
def Clear (offset : ℕ) (b : Bytes) : Prop := ∀ i < offset, ∀ x, ¬ terminator <+: (b ++ x).drop i

theorem terminator_ne_nil : terminator ≠ [] := by decide

theorem length_terminator : terminator.length = 5 := rfl

theorem clear_append {offset : ℕ} {b : Bytes} (h : Clear offset b) (x : Bytes) :
    Clear offset (b ++ x) := by
  intro i hi y
  rw [List.append_assoc]
  exact h i hi (x ++ y)

/-- Bytes without a terminator have no beginning of one but in the last four. -/
theorem clear_of_cut {b : Bytes} (h : cut terminator b = none) :
    Clear (b.length + 1 - terminator.length) b := by
  intro i hi x hp
  rw [List.drop_append_of_le_length (by omega)] at hp
  refine (cut_eq_none_iff terminator_ne_nil).1 h i
    (List.prefix_of_prefix_length_le hp (List.prefix_append _ x) ?_)
  rw [List.length_drop]
  omega

/-- Where no terminator begins before the offset, the first behind it is the first. -/
theorem find_eq_some {b : Bytes} {offset isep : ℕ} (hclear : Clear offset b)
    (h : find terminator b offset = some isep) :
    cut terminator b = some (b.take isep, b.drop (isep + terminator.length)) := by
  obtain ⟨⟨a, r⟩, hcut, rfl⟩ := Option.map_eq_some_iff.1 h
  obtain ⟨heq, hfirst⟩ := (cut_eq_some_iff terminator_ne_nil).1 hcut
  have hb : b = b.take offset ++ a ++ (terminator ++ r) := by
    rw [List.append_assoc, ← heq, List.take_append_drop]
  have hoff : offset ≤ b.length := by
    have hlen := congrArg List.length heq
    simp only [List.length_append, List.length_drop, length_terminator] at hlen
    omega
  have hlen : (b.take offset ++ a).length = offset + a.length := by
    rw [List.length_append, List.length_take, Nat.min_eq_left hoff]
  have htake : b.take (offset + a.length) = b.take offset ++ a := by
    nth_rewrite 1 [hb]
    rw [← hlen, List.take_left]
  have hdrop : b.drop (offset + a.length + terminator.length) = r := by
    nth_rewrite 1 [hb]
    rw [← hlen, ← List.length_append, ← List.append_assoc, List.drop_left]
  rw [htake, hdrop]
  refine (cut_eq_some_iff terminator_ne_nil).2 ⟨hb, fun i hi hp => ?_⟩
  by_cases hi' : i < offset
  · refine hclear i hi' [] ?_
    rwa [List.append_nil]
  · refine hfirst (i - offset) (by omega) ?_
    rwa [List.drop_drop, Nat.add_sub_cancel' (by omega)]

theorem cut_of_find_eq_none {b : Bytes} {offset : ℕ} (hclear : Clear offset b)
    (h : find terminator b offset = none) : cut terminator b = none := by
  rw [find, Option.map_eq_none_iff] at h
  refine (cut_eq_none_iff terminator_ne_nil).2 fun i hp => ?_
  by_cases hi : i < offset
  · refine hclear i hi [] ?_
    rwa [List.append_nil]
  · refine (cut_eq_none_iff terminator_ne_nil).1 h (i - offset) ?_
    rwa [List.drop_drop, Nat.add_sub_cancel' (by omega)]

/-- The bytes of the connection are where the reader says; the fallback runs for a message that is
too long. -/
def Reading (input : Bytes) : Pc × Stream → Prop
  | (.readuntil offset, s) => s.rest = input ∧ Clear offset s.buffer ∧ offset ≤ streamLimit
  | (.fallback buf, s) =>
    buf ++ s.rest = input ∧ cut terminator buf = none ∧ readuntil terminator input = .overrun

/-- What `readData` makes of the bytes, for some number of bytes that are dropped. -/
def Outcome (input : Bytes) (r : Bytes × Stream) : Prop :=
  ∃ overread, readData overread input = (r.1, r.2.rest)

theorem reading_feed {input : Bytes} {offset : ℕ} {s : Stream}
    (h : Reading input (.readuntil offset, s)) : Reading input (.readuntil offset, s.feed) := by
  obtain ⟨hrest, hclear, hle⟩ := h
  refine ⟨s.rest_feed.trans hrest, ?_, hle⟩
  obtain ⟨buffer, _ | ⟨a, as⟩⟩ := s
  · exact hclear
  · exact clear_append hclear a

variable {input : Bytes} {s : Stream}

/-- The terminator comes too late. -/
theorem overrun_of_clear {offset : ℕ} (hrest : s.rest = input) (hclear : Clear offset s.buffer)
    (hlen : offset + terminator.length ≤ s.buffer.length + 1) (hlimit : streamLimit < offset) :
    readuntil terminator input = .overrun := by
  have hinput := congrArg List.length hrest
  rw [Stream.rest, List.length_append] at hinput
  unfold readuntil
  cases hcut : cut terminator input with
  | none => exact if_neg (by omega)
  | some p =>
    obtain ⟨before, rest⟩ := p
    obtain ⟨heq, -⟩ := (cut_eq_some_iff terminator_ne_nil).1 hcut
    refine if_neg fun hle => hclear before.length (by omega) s.arrivals.flatten ?_
    rw [show s.buffer ++ s.arrivals.flatten = input from hrest, heq, List.drop_left]
    exact List.prefix_append terminator rest

/-- The reader waits, or the message has no end. -/
theorem wait_spec {offset : ℕ} (hs : Reading input (.readuntil offset, s))
    (hcut : cut terminator s.buffer = none)
    (hlen : s.buffer.length < offset + terminator.length) :
    (∀ next, wait offset s = .inl next → Reading input next) ∧
      ∀ r, wait offset s = .inr r → Outcome input r := by
  unfold wait
  split_ifs with hnil
  · refine ⟨fun _ h => (by cases h), fun r h => ?_⟩
    obtain rfl := Sum.inr.inj h
    obtain ⟨hrest, -, hle⟩ := hs
    rw [Stream.rest, hnil, List.flatten_nil, List.append_nil] at hrest
    have hshort : input.length + 1 ≤ streamLimit + terminator.length := by
      rw [← hrest]
      omega
    refine ⟨0, ?_⟩
    rw [readData, readuntil, ← hrest, hcut]
    simp only
    rw [if_pos (hrest ▸ hshort)]
    rfl
  · refine ⟨fun next h => ?_, fun _ h => (by cases h)⟩
    obtain rfl := Sum.inl.inj h
    exact hs

/-- The whole buffer has been searched. -/
theorem found_spec {offset : ℕ} (hs : Reading input (.readuntil offset, s)) {isep : ℕ}
    (hfind : find terminator s.buffer offset = some isep) :
    (streamLimit < isep → Reading input (.fallback [], s)) ∧
      (¬ streamLimit < isep → Outcome input (s.buffer.take isep,
        { s with buffer := s.buffer.drop (isep + terminator.length) })) := by
  obtain ⟨hrest, hclear, -⟩ := hs
  have hcut := find_eq_some hclear hfind
  have hlen : (s.buffer.take isep).length = isep := by
    have heq := congrArg List.length (cut_eq hcut)
    simp only [List.length_append, List.length_take, List.length_drop, length_terminator] at heq ⊢
    omega
  have hinput := cut_append terminator_ne_nil hcut s.arrivals.flatten
  rw [show s.buffer ++ s.arrivals.flatten = input from hrest] at hinput
  constructor
  · intro hlimit
    refine ⟨hrest, rfl, ?_⟩
    rw [readuntil, hinput]
    exact if_neg (by omega)
  · intro hlimit
    refine ⟨0, ?_⟩
    rw [readData, readuntil, hinput]
    simp only
    rw [if_pos (by omega)]
    rfl

theorem cut_of_short {offset : ℕ} {b : Bytes} (hclear : Clear offset b)
    (hlen : b.length < offset + terminator.length) : cut terminator b = none := by
  refine (cut_eq_none_iff terminator_ne_nil).2 fun i hp => ?_
  have hle := hp.length_le
  rw [List.length_drop, length_terminator] at hle
  rw [length_terminator] at hlen
  refine hclear i (by omega) [] ?_
  rwa [List.append_nil]

theorem readuntil_spec {offset : ℕ} (hs : Reading input (.readuntil offset, s)) :
    (∀ next, step (.readuntil offset, s) = .inl next → Reading input next) ∧
      ∀ r, step (.readuntil offset, s) = .inr r → Outcome input r := by
  have hs := reading_feed hs
  obtain ⟨hrest, hclear, hle⟩ := id hs
  simp only [step]
  by_cases hlen : s.feed.buffer.length < offset + terminator.length
  · rw [if_pos hlen]
    exact wait_spec hs (cut_of_short hclear hlen) hlen
  rw [if_neg hlen]
  cases hfind : find terminator s.feed.buffer offset with
  | some isep =>
    obtain ⟨hlate, hfound⟩ := found_spec hs hfind
    dsimp only
    split_ifs with hlimit
    · refine ⟨fun next h => ?_, fun _ h => (by cases h)⟩
      obtain rfl := Sum.inl.inj h
      exact hlate hlimit
    · refine ⟨fun _ h => (by cases h), fun r h => ?_⟩
      obtain rfl := Sum.inr.inj h
      exact hfound hlimit
  | none =>
    have hcut := cut_of_find_eq_none hclear hfind
    have hclear' := clear_of_cut hcut
    rw [length_terminator] at hlen
    dsimp only
    split_ifs with hlimit
    · refine ⟨fun next h => ?_, fun _ h => (by cases h)⟩
      obtain rfl := Sum.inl.inj h
      refine ⟨hrest, rfl, overrun_of_clear hrest hclear' ?_ hlimit⟩
      rw [length_terminator]
      omega
    · refine wait_spec ⟨hrest, hclear', by omega⟩ hcut ?_
      rw [length_terminator]
      omega

theorem fallback_spec {buf : Bytes} (hs : Reading input (.fallback buf, s)) :
    (∀ next, step (.fallback buf, s) = .inl next → Reading input next) ∧
      ∀ r, step (.fallback buf, s) = .inr r → Outcome input r := by
  obtain ⟨hrest, hbuf, hlong⟩ := hs
  rw [← s.rest_feed] at hrest
  have hread : ∀ k, readData k input = readChunks k input := fun k => by rw [readData, hlong]
  simp only [step]
  split_ifs with hchunk hnil
  · have hempty : s.feed.rest = [] := by
      rw [List.take_eq_nil_iff] at hchunk
      rw [Stream.rest, hnil, hchunk.resolve_left (by decide), List.flatten_nil, List.append_nil]
    refine ⟨fun _ h => (by cases h), fun r h => ⟨0, ?_⟩⟩
    obtain rfl := Sum.inr.inj h
    rw [hempty, List.append_nil] at hrest
    rw [hread, readChunks, ← hrest, hbuf, hempty]
  · refine ⟨fun next h => ?_, fun _ h => (by cases h)⟩
    obtain rfl := Sum.inl.inj h
    exact ⟨hrest, hbuf, hlong⟩
  · have hsplit : input = (buf ++ s.feed.buffer.take chunkSize) ++
        Stream.rest ⟨s.feed.buffer.drop chunkSize, s.feed.arrivals⟩ := by
      have hbuffer := List.take_append_drop chunkSize s.feed.buffer
      rw [← hrest, Stream.rest, Stream.rest, List.append_assoc buf, ← List.append_assoc (List.take _ _),
        hbuffer]
    cases hcut : cut terminator (buf ++ s.feed.buffer.take chunkSize) with
    | none =>
      refine ⟨fun next h => ?_, fun _ h => (by cases h)⟩
      obtain rfl := Sum.inl.inj h
      exact ⟨hsplit.symm, hcut, hlong⟩
    | some p =>
      obtain ⟨before, behind⟩ := p
      refine ⟨fun _ h => (by cases h), fun r h => ⟨behind.length, ?_⟩⟩
      obtain rfl := Sum.inr.inj h
      rw [hread, readChunks, hsplit, cut_append terminator_ne_nil hcut]
      simp only
      rw [List.drop_left]

/-- The reader returns what `readData` says of the bytes of the connection. -/
theorem returns_readData {r : Bytes × Stream} (h : Returns step (.readuntil 0, s) r) :
    ∃ overread, readData overread s.rest = (r.1, r.2.rest) := by
  have hstart : Reading s.rest (.readuntil 0, s) :=
    ⟨rfl, fun i hi => absurd hi (Nat.not_lt_zero i), Nat.zero_le _⟩
  refine returns_induction (I := Reading s.rest) (P := Outcome s.rest) ?_ ?_ hstart h
  · rintro ⟨pc, t⟩ next ht hnext
    cases pc with
    | readuntil offset => exact (readuntil_spec ht).1 next hnext
    | fallback buf => exact (fallback_spec ht).1 next hnext
  · rintro ⟨pc, t⟩ r ht hr
    cases pc with
    | readuntil offset => exact (readuntil_spec ht).2 r hr
    | fallback buf => exact (fallback_spec ht).2 r hr

/-! ## Messages -/

/-- A message of lines that end in CR LF. -/
structure Message where
  lines : List Bytes
  piece : ∀ l ∈ lines, Piece l

namespace Message

variable (m : Message)

/-- The message up to its final CR LF. -/
def text : Bytes := crlf.intercalate m.lines

def stuffed : Bytes := crlf.intercalate (m.lines.map addDot)

/-- What a client sends after DATA. -/
def wire : Bytes := (m.lines.map fun l => addDot l ++ crlf).flatten ++ dot :: crlf

theorem wire_eq (h : m.lines ≠ []) : m.wire = m.stuffed ++ terminator := by
  have hlines : ∀ ls : List Bytes, ls ≠ [] →
      (ls.map fun l => addDot l ++ crlf).flatten = crlf.intercalate (ls.map addDot) ++ crlf := by
    intro ls
    induction ls with
    | nil => exact fun h => absurd rfl h
    | cons l ls ih =>
      intro _
      by_cases hls : ls = []
      · simp [hls]
      · have hne : ls.map addDot ≠ [] := fun h => hls (List.map_eq_nil_iff.1 h)
        rw [List.map_cons, List.flatten_cons, ih hls, List.map_cons, intercalate_cons hne]
        simp only [List.append_assoc]
  rw [wire, hlines m.lines h, List.append_assoc]
  rfl

theorem splitCrlf_stuffed (h : m.lines ≠ []) : splitCrlf m.stuffed = m.lines.map addDot := by
  refine splitCrlf_intercalate (fun he => h (List.map_eq_nil_iff.1 he)) fun x hx => ?_
  obtain ⟨l, hl, rfl⟩ := List.mem_map.1 hx
  exact piece_addDot (m.piece l hl)

/-- The dots that the client adds are taken off. -/
theorem unstuff_stuffed (h : m.lines ≠ []) : unstuff m.stuffed = m.text := by
  have hdrop : unstuff m.stuffed = crlf.intercalate ((splitCrlf m.stuffed).map dropDot) := rfl
  have hid : dropDot ∘ addDot = id := funext dropDot_addDot
  rw [hdrop, m.splitCrlf_stuffed h, List.map_map, hid, List.map_id, text]

theorem cut_wire (h : m.lines ≠ []) (following : Bytes) :
    cut terminator (m.wire ++ following) = some (m.stuffed, following) := by
  rw [m.wire_eq h]
  refine cut_dotLine ?_ following
  rw [m.splitCrlf_stuffed h]
  intro hm
  obtain ⟨l, -, hl⟩ := List.mem_map.1 (List.mem_of_mem_tail hm)
  exact addDot_ne_dot l hl

end Message

/-- The message is stored up to its final CR LF, and the next command is read where it ends. -/
def Decodes (m : Message) (following : Bytes) (s : Stream) : Prop :=
  ∃ data t, Returns step (.readuntil 0, s) (data, t) ∧ unstuff data = m.text ∧ t.rest = following

/-! ## Which messages are decoded -/

theorem decodes_of_fits {m : Message} {following : Bytes} (hm : m.lines ≠ [])
    (hfits : m.stuffed.length ≤ streamLimit ∨ following = []) {s : Stream}
    (hs : s.rest = m.wire ++ following) : Decodes m following s := by
  obtain ⟨⟨data, t⟩, hr⟩ := reader_returns (.readuntil 0) s
  obtain ⟨k, hread⟩ := returns_readData hr
  have hcut := m.cut_wire hm following
  have hdata : data = m.stuffed := by
    rw [hs] at hread
    rw [← readData_of_cut hcut k, hread]
  refine ⟨data, t, hr, by rw [hdata, m.unstuff_stuffed hm], ?_⟩
  have hrest : (readData k (m.wire ++ following)).2 = t.rest := by rw [← hs, hread]
  rw [← hrest, readData, readuntil, hcut]
  simp only
  by_cases hlimit : m.stuffed.length ≤ streamLimit
  · rw [if_pos hlimit]
  · rw [if_neg hlimit, readChunks, hcut, hfits.resolve_left hlimit]
    exact List.drop_nil

/-- What begins with a dot is not stored as the empty message. -/
theorem unstuff_dot_ne_nil (d : Bytes) : unstuff (dot :: d) ≠ [] := by
  obtain ⟨l, ls, hd, -⟩ := prefix_splitCrlf d
  have hdrop : unstuff (dot :: d) = crlf.intercalate ((splitCrlf (dot :: d)).map dropDot) := rfl
  have hfirst : dropDot (dot :: l) ≠ [] := by
    unfold dropDot
    split_ifs with h
    · rintro (rfl : l = [])
      exact absurd h.length_le (by decide)
    · exact List.cons_ne_nil dot l
  rw [hdrop, splitCrlf_dot_cons hd, List.map_cons]
  by_cases hls : ls.map dropDot = []
  · simpa [hls] using hfirst
  · rw [intercalate_cons hls]
    simp

/-- For a message without lines the reader takes what follows, or what there is. -/
theorem not_decodes_empty {m : Message} {following : Bytes} (hm : m.lines = []) {s : Stream}
    (hs : s.rest = m.wire ++ following) : ¬ Decodes m following s := by
  rintro ⟨data, t, hr, htext, -⟩
  obtain ⟨k, hread⟩ := returns_readData hr
  have hwire : s.rest = dot :: (crlf ++ following) := by
    rw [hs, Message.wire, hm]
    rfl
  have hdata : ∃ d, data = dot :: d := by
    rw [hwire] at hread
    cases hcut : cut terminator (dot :: (crlf ++ following)) with
    | some p =>
      obtain ⟨before, rest⟩ := p
      obtain rfl : before = data := by rw [← readData_of_cut hcut k, hread]
      have heq := cut_eq hcut
      cases before with
      | nil => exact absurd (List.cons.inj heq).1 (by decide)
      | cons b d => exact ⟨d, by rw [(List.cons.inj heq).1]⟩
    | none =>
      have hall : (readData k (dot :: (crlf ++ following))).1 = dot :: (crlf ++ following) := by
        rw [readData, readuntil, hcut]
        simp only
        by_cases hlen : (dot :: (crlf ++ following)).length + 1 ≤ streamLimit + terminator.length
        · rw [if_pos hlen]
        · rw [if_neg hlen, readChunks, hcut]
      exact ⟨crlf ++ following, by rw [← hall, hread]⟩
  obtain ⟨d, rfl⟩ := hdata
  refine unstuff_dot_ne_nil d ?_
  rw [htext, Message.text, hm]
  rfl

/-! ## Bytes that are dropped -/

theorem cut_eq_none_of_append {b x : Bytes} (h : cut terminator (b ++ x) = none) :
    cut terminator b = none := by
  cases hb : cut terminator b with
  | none => rfl
  | some p => simp [cut_append terminator_ne_nil hb] at h

/-- The fallback reads the buffer to its end while nothing arrives. -/
theorem returns_drained {buf b : Bytes} {n : ℕ} (as : List Bytes) (hn : b.length ≤ n)
    (hcut : cut terminator (buf ++ b) = none) (has : as ≠ []) (r : Bytes × Stream) :
    Returns step (.fallback buf, ⟨b, List.replicate n [] ++ as⟩) r ↔
      Returns step (.fallback (buf ++ b), ⟨[], as⟩) r := by
  induction n generalizing buf b with
  | zero =>
    obtain rfl := List.eq_nil_of_length_eq_zero (Nat.le_zero.1 hn)
    rw [List.append_nil]
    rfl
  | succ n ih =>
    by_cases hchunk : b.take chunkSize = []
    · have hb : b = [] := (List.take_eq_nil_iff.1 hchunk).resolve_left (by decide)
      have hstep : step (.fallback buf, ⟨b, List.replicate (n + 1) [] ++ as⟩) =
          .inl (.fallback buf, ⟨b, List.replicate n [] ++ as⟩) := by
        simp [step, Stream.feed, List.replicate_succ, hb, has]
      rw [returns_of_step hstep, ih (by simp [hb]) hcut]
    · have hsplit : buf ++ b = (buf ++ b.take chunkSize) ++ b.drop chunkSize := by
        rw [List.append_assoc, List.take_append_drop]
      rw [hsplit] at hcut ⊢
      have hstep : step (.fallback buf, ⟨b, List.replicate (n + 1) [] ++ as⟩) =
          .inl (.fallback (buf ++ b.take chunkSize),
            ⟨b.drop chunkSize, List.replicate n [] ++ as⟩) := by
        simp [step, Stream.feed, List.replicate_succ, hchunk, cut_eq_none_of_append hcut]
      have hlen : (b.drop chunkSize).length ≤ n := by
        have hpos := List.length_pos_of_ne_nil hchunk
        rw [List.length_take] at hpos
        rw [List.length_drop]
        omega
      rw [returns_of_step hstep, ih hlen hcut]

/-- The last byte of the terminator arrives together with what follows it: of that, the fallback
drops what one read takes. -/
theorem returns_overread {a following : Bytes}
    (hcut : cut terminator (a ++ terminator ++ following) = some (a, following))
    (hlong : streamLimit < a.length) : ∃ s : Stream, s.rest = a ++ terminator ++ following ∧
      Returns step (.readuntil 0, s) (a, ⟨following.drop (chunkSize - 1), []⟩) := by
  let b := a ++ [CR, LF, dot, CR]
  have hsplit : a ++ terminator ++ following = b ++ LF :: following := by
    simp [b, terminator, ascii, dot]
  have hb : b.length = a.length + 4 := by simp [b]
  rw [hsplit] at hcut ⊢
  -- without its last byte, the terminator is not in the buffer
  have hnone : cut terminator b = none := by
    refine (cut_eq_none_iff terminator_ne_nil).2 fun i hp => ?_
    have hle := hp.length_le
    rw [List.length_drop, hb, length_terminator] at hle
    refine ((cut_eq_some_iff terminator_ne_nil).1 hcut).2 i (by omega) ?_
    rw [List.drop_append_of_le_length (by omega)]
    exact hp.trans (List.prefix_append _ _)
  refine ⟨⟨[], b :: (List.replicate b.length [] ++ [LF :: following])⟩, by simp [Stream.rest], ?_⟩
  have hfind : find terminator b 0 = none := by rw [find, List.drop_zero, hnone, Option.map_none]
  have hstart : step (.readuntil 0, ⟨[], b :: (List.replicate b.length [] ++ [LF :: following])⟩) =
      .inl (.fallback [], ⟨b, List.replicate b.length [] ++ [LF :: following]⟩) := by
    have hshort : ¬ b.length < 0 + 5 := by omega
    have hlimit : streamLimit < b.length + 1 - 5 := by omega
    simp only [step, Stream.feed, List.nil_append, hfind, length_terminator, if_neg hshort]
    exact if_pos hlimit
  have hlast : step (.fallback b, ⟨[], [LF :: following]⟩) =
      .inr (a, ⟨following.drop (chunkSize - 1), []⟩) := by
    have htake : b ++ LF :: following.take (chunkSize - 1) =
        a ++ (terminator ++ following.take (chunkSize - 1)) := by
      simp [b, terminator, ascii, dot]
    have hfirst : cut terminator (b ++ LF :: following.take (chunkSize - 1)) =
        some (a, following.take (chunkSize - 1)) := by
      refine (cut_eq_some_iff terminator_ne_nil).2 ⟨htake, fun i hi hp => ?_⟩
      refine ((cut_eq_some_iff terminator_ne_nil).1 hcut).2 i hi (hp.trans ?_)
      have hpre : b ++ LF :: following.take (chunkSize - 1) <+: b ++ LF :: following :=
        (List.prefix_append_right_inj b).2
          (List.cons_prefix_cons.2 ⟨rfl, List.take_prefix _ following⟩)
      exact hpre.drop i
    have hchunk : (LF :: following).take chunkSize = LF :: following.take (chunkSize - 1) := rfl
    have hbehind : (LF :: following).drop chunkSize = following.drop (chunkSize - 1) := rfl
    simp only [step, Stream.feed, List.nil_append, hchunk, hbehind, hfirst,
      if_neg (List.cons_ne_nil LF _)]
  have hdrain := @returns_drained [] _ _ [LF :: following] le_rfl hnone (List.cons_ne_nil _ _)
  exact (returns_of_step hstart _).2 ((hdrain _).2 ((returns_of_done hlast _).2 rfl))

/-- A message and what follows it are decoded in every chunking exactly where the message has a line
and fits the limit or nothing follows it. -/
theorem decodes_iff (m : Message) (following : Bytes) :
    (∀ s : Stream, s.rest = m.wire ++ following → Decodes m following s) ↔
      m.lines ≠ [] ∧ (m.stuffed.length ≤ streamLimit ∨ following = []) := by
  constructor
  · intro h
    have hm : m.lines ≠ [] := fun hm =>
      not_decodes_empty hm (s := ⟨m.wire ++ following, []⟩) (List.append_nil _)
        (h ⟨m.wire ++ following, []⟩ (List.append_nil _))
    refine ⟨hm, ?_⟩
    by_contra hneg
    obtain ⟨hlong, hne⟩ := not_or.1 hneg
    have hcut := m.cut_wire hm following
    rw [m.wire_eq hm] at hcut
    obtain ⟨s, hs, hr⟩ := returns_overread hcut (Nat.lt_of_not_le hlong)
    obtain ⟨data, t, hr', -, ht⟩ := h s (by rw [hs, m.wire_eq hm])
    obtain ⟨-, rfl⟩ := Prod.mk.inj (returns_unique hr hr')
    have hlen := congrArg List.length ht
    have hpos := List.length_pos_of_ne_nil hne
    simp only [Stream.rest, List.flatten_nil, List.append_nil, List.length_drop, chunkSize] at hlen
    omega
  · rintro ⟨hm, hfits⟩ s hs
    exact decodes_of_fits hm hfits hs

/-- The empty message, with a QUIT behind it: both are stored, up to the end of the stream. -/
theorem empty_message_stored :
    Returns step (.readuntil 0, ⟨ascii ".\r\nQUIT\r\n", []⟩) (ascii ".\r\nQUIT\r\n", ⟨[], []⟩) ∧
      ¬ Decodes ⟨[], fun _ h => absurd h List.not_mem_nil⟩ (ascii "QUIT\r\n")
        ⟨ascii ".\r\nQUIT\r\n", []⟩ := by
  have hr : Returns step (.readuntil 0, ⟨ascii ".\r\nQUIT\r\n", []⟩)
      (ascii ".\r\nQUIT\r\n", ⟨[], []⟩) := ⟨1, by decide +kernel⟩
  refine ⟨hr, ?_⟩
  rintro ⟨data, t, hr', htext, -⟩
  obtain ⟨rfl, -⟩ := Prod.mk.inj (returns_unique hr hr')
  exact absurd htext (unstuff_dot_ne_nil (ascii "\r\nQUIT\r\n"))

end Fatmama.DataReader
