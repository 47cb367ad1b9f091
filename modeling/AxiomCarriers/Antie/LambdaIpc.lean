import AxiomCarriers.Lib.Frame
import AxiomCarriers.Lib.Run

/-!
# The stdio exchange with Lambda

The calls of `LambdaClient` in subprocess mode share one child process.  A call takes the lock,
writes a request frame, and reads a reply frame from the child's output; the child answers its
requests in order, one frame each, with any delay, so its output reaches the client byte by byte
(`flush`, `recv`).  Three kinds of call read through a `BufReader`, which may take more than the
frame and loses it when dropped; only `send_raw_request` has a timeout.

Nothing in a reply is compared with the request.  `ipc_matched` shows that the calls nevertheless
return the replies to their own requests as long as no call times out and no reply is longer than a
call accepts: then the pipe is empty whenever the lock is free (`Inv`).
-/

namespace Antie.LambdaIpc

open Frame Runs

/-- The functions that exchange frames with the child. -/
inductive Kind
  | witness
  | redeem
  | ack
  | genesis
  | raw
  deriving DecidableEq

/-- The function reads through a `BufReader`. -/
def Kind.buffered : Kind → Bool
  | .redeem | .ack | .genesis => true
  | .witness | .raw => false

/-- A call; the number tells the requests of all clients apart. -/
structure Call where
  id : ℕ
  kind : Kind
  deriving DecidableEq

/-- The longest reply a call accepts: 10 MiB. -/
def maxReply : ℕ := 10 * 1024 * 1024

/-- The state of the exchange; `ρ` is the type of decoded responses. -/
structure State (ρ : Type) where
  next : ℕ
  /-- The requests the child has not answered, in order. -/
  pending : List Call
  /-- What the child has still to write of its answers. -/
  unwritten : Bytes
  /-- The child's output that no call has read. -/
  pipe : Bytes
  /-- The call that holds the lock, and what it has read. -/
  current : Option (Call × Bytes)
  /-- The answers of the child. -/
  answers : List (Call × Bytes)
  /-- The responses that calls have returned. -/
  returned : List (Call × ρ)
  deriving DecidableEq

def start (ρ : Type) : State ρ := ⟨0, [], [], [], none, [], []⟩

inductive Event
  /-- A call takes the lock and writes its request. -/
  | begin (kind : Kind)
  /-- The child answers its oldest request. -/
  | answer (payload : Bytes)
  /-- That many bytes of the answers come out of the child. -/
  | flush (n : ℕ)
  /-- A read of the call returns that many bytes. -/
  | recv (n : ℕ)
  /-- The frame is there: the call decodes it and releases the lock. -/
  | finish
  /-- The announced length is too large: the call fails. -/
  | refuse
  /-- The 300 seconds of `send_raw_request` are over: the call fails. -/
  | timeout
  deriving DecidableEq

/-- The number of bytes a call still has to read: the length, then the payload. -/
def missing (got : Bytes) : ℕ :=
  if got.length < 4 then 4 - got.length else 4 + announced got - got.length

/-- One step; `decode` is what a call makes of a payload. -/
def step {ρ : Type} (decode : Kind → Bytes → Option ρ) (s : State ρ) : Event → Option (State ρ)
  | .begin kind =>
    match s.current with
    | none => some { s with
        next := s.next + 1
        pending := s.pending ++ [⟨s.next, kind⟩]
        current := some (⟨s.next, kind⟩, []) }
    | some _ => none
  | .answer payload =>
    match s.pending with
    | c :: pending =>
      if payload.length < 2 ^ 32 then some { s with
        pending := pending
        unwritten := s.unwritten ++ frame payload
        answers := s.answers ++ [(c, payload)] }
      else none
    | [] => none
  | .flush n =>
    if n ≤ s.unwritten.length then some { s with
      unwritten := s.unwritten.drop n
      pipe := s.pipe ++ s.unwritten.take n }
    else none
  | .recv n =>
    match s.current with
    | some (c, got) =>
      if 0 < missing got ∧ (4 ≤ got.length → announced got ≤ maxReply) ∧ n ≤ s.pipe.length ∧
          (c.kind.buffered ∨ n ≤ missing got) then some { s with
        pipe := s.pipe.drop n
        current := some (c, got ++ s.pipe.take n) }
      else none
    | none => none
  | .finish =>
    match s.current with
    | some (c, got) =>
      if 4 ≤ got.length ∧ announced got ≤ maxReply ∧ missing got = 0 then some { s with
        current := none
        returned := s.returned ++
          ((decode c.kind ((got.drop 4).take (announced got))).map (c, ·)).toList }
      else none
    | none => none
  | .refuse =>
    match s.current with
    | some (_, got) =>
      if 4 ≤ got.length ∧ maxReply < announced got then some { s with current := none } else none
    | none => none
  | .timeout =>
    match s.current with
    | some (c, _) => if c.kind = .raw then some { s with current := none } else none
    | none => none

/-- Every response returned is the child's answer to that very request. -/
def Matched {ρ : Type} (decode : Kind → Bytes → Option ρ) (s : State ρ) : Prop :=
  ∀ c r, (c, r) ∈ s.returned → ∃ payload, (c, payload) ∈ s.answers ∧ decode c.kind payload = some r

/-- No call times out, and no reply is longer than a call accepts. -/
def Calm {ρ : Type} (_ : State ρ) : Event → Prop
  | .answer payload => payload.length ≤ maxReply
  | .timeout => False
  | _ => True

instance {ρ : Type} (s : State ρ) (e : Event) : Decidable (Calm s e) := by
  unfold Calm
  split <;> infer_instance

/-! ## The invariant -/

/-- The call waits for the child to answer it, and no byte is under way. -/
def Waiting {ρ : Type} (s : State ρ) (c : Call) (got : Bytes) : Prop :=
  s.pending = [c] ∧ got ++ (s.pipe ++ s.unwritten) = []

/-- The child has answered the call; the bytes read, in the pipe and unwritten are this answer. -/
def Answered {ρ : Type} (s : State ρ) (c : Call) (got : Bytes) : Prop :=
  s.pending = [] ∧ ∃ payload, (c, payload) ∈ s.answers ∧ payload.length ≤ maxReply ∧
    got ++ (s.pipe ++ s.unwritten) = frame payload

/-- When the lock is free the child owes nothing and the pipe is empty; under a call, all that is
under way is the answer to it. -/
def InStep {ρ : Type} (s : State ρ) : Option (Call × Bytes) → Prop
  | none => s.pending = [] ∧ s.pipe ++ s.unwritten = []
  | some (c, got) => Waiting s c got ∨ Answered s c got

def Inv {ρ : Type} (decode : Kind → Bytes → Option ρ) (s : State ρ) : Prop :=
  InStep s s.current ∧ Matched decode s

theorem inv_start {ρ : Type} (decode : Kind → Bytes → Option ρ) : Inv decode (start ρ) :=
  ⟨⟨rfl, rfl⟩, fun _ _ h => absurd h (by simp [start])⟩

theorem missing_eq_zero {got : Bytes} (h₄ : 4 ≤ got.length) (h : missing got = 0) :
    4 + announced got ≤ got.length := by
  rw [missing, if_neg (by omega)] at h
  omega

theorem maxReply_lt : maxReply < 2 ^ 32 := by decide

/-- A call that has read the length of its answer has read the length of that answer's payload. -/
theorem Answered.of_inStep {ρ : Type} {s : State ρ} {c : Call} {got : Bytes}
    (h : InStep s (some (c, got))) (h₄ : 4 ≤ got.length) :
    s.pending = [] ∧ ∃ payload, (c, payload) ∈ s.answers ∧ payload.length ≤ maxReply ∧
      got ++ (s.pipe ++ s.unwritten) = frame payload ∧ announced got = payload.length := by
  rcases h with ⟨-, hnil⟩ | ⟨hp, payload, hmem, hle, hframe⟩
  · simp [List.append_eq_nil_iff.1 hnil] at h₄
  · exact ⟨hp, payload, hmem, hle, hframe,
      announced_of_append_eq (Nat.lt_of_le_of_lt hle maxReply_lt) h₄ hframe⟩

/-- A call that has read a whole frame has read its answer, and has left nothing in the pipe. -/
theorem Answered.finished {ρ : Type} {s : State ρ} {c : Call} {got : Bytes}
    (h : InStep s (some (c, got))) (h₄ : 4 ≤ got.length) (hmissing : missing got = 0) :
    s.pending = [] ∧ s.pipe ++ s.unwritten = [] ∧
      (c, (got.drop 4).take (announced got)) ∈ s.answers := by
  obtain ⟨hpend, payload, hmem, -, hframe, hann⟩ := Answered.of_inStep h h₄
  have hlen := congrArg List.length hframe
  rw [length_frame, List.length_append] at hlen
  have hgot := missing_eq_zero h₄ hmissing
  have hrest : s.pipe ++ s.unwritten = [] := by
    apply List.eq_nil_of_length_eq_zero
    omega
  have hread : (got.drop 4).take (announced got) = payload := by
    rw [hrest, List.append_nil] at hframe
    rw [hann, hframe, frame, ← length_be32 payload.length, List.drop_left, List.take_length]
  exact ⟨hpend, hrest, hread.symm ▸ hmem⟩

/-- Only the call that holds the lock can be waiting for an answer, and then it is answered. -/
theorem inStep_answer {ρ : Type} {s : State ρ} {c : Call} {pending : List Call} {payload : Bytes}
    (hin : InStep s s.current) (hp : s.pending = c :: pending) (hle : payload.length ≤ maxReply) :
    InStep { s with
      pending := pending
      unwritten := s.unwritten ++ frame payload
      answers := s.answers ++ [(c, payload)] } s.current := by
  cases hcur : s.current with
  | none =>
    rw [hcur] at hin
    exact absurd (hp.symm.trans hin.1) (List.cons_ne_nil _ _)
  | some p =>
    obtain ⟨c', got⟩ := p
    rw [hcur] at hin
    rcases hin with ⟨hpend, hnil⟩ | ⟨hpend, -⟩
    · obtain ⟨rfl, rfl⟩ := List.cons.inj (hp.symm.trans hpend)
      refine Or.inr ⟨rfl, payload, by simp, hle, ?_⟩
      simp only [← List.append_assoc] at hnil ⊢
      rw [hnil, List.nil_append]
    · simp [hp] at hpend

/-- Moving bytes on their way to the call does not change what is under way. -/
theorem inStep_move {ρ : Type} {s s' : State ρ} {c : Call} {got got' : Bytes}
    (h : InStep s (some (c, got))) (hp : s'.pending = s.pending) (ha : s'.answers = s.answers)
    (hb : got' ++ (s'.pipe ++ s'.unwritten) = got ++ (s.pipe ++ s.unwritten)) :
    InStep s' (some (c, got')) := by
  rcases h with ⟨hpend, hnil⟩ | ⟨hpend, payload, hmem, hle, hframe⟩
  · exact Or.inl ⟨hp.trans hpend, hb.trans hnil⟩
  · exact Or.inr ⟨hp.trans hpend, payload, ha ▸ hmem, hle, hb.trans hframe⟩

theorem inv_step {ρ : Type} {decode : Kind → Bytes → Option ρ} (s : State ρ) (e : Event)
    (s' : State ρ) (hs : Inv decode s) (hC : Calm s e) (h : step decode s e = some s') :
    Inv decode s' := by
  obtain ⟨hin, hmatched⟩ := hs
  cases e with
  | begin kind =>
    cases hc : s.current with
    | some p => simp [step, hc] at h
    | none =>
      rw [hc] at hin
      obtain ⟨hp, hb⟩ := hin
      simp only [step, hc] at h
      obtain rfl := Option.some.inj h
      exact ⟨Or.inl ⟨by simp [hp], hb⟩, hmatched⟩
  | answer payload =>
    cases hp : s.pending with
    | nil => simp [step, hp] at h
    | cons c pending =>
      simp only [step, hp] at h
      split_ifs at h
      obtain rfl := Option.some.inj h
      have hmore : Matched decode { s with
          pending := pending
          unwritten := s.unwritten ++ frame payload
          answers := s.answers ++ [(c, payload)] } := by
        intro c' r hr
        obtain ⟨p, hmem, hdec⟩ := hmatched c' r hr
        exact ⟨p, List.mem_append_left _ hmem, hdec⟩
      exact ⟨inStep_answer hin hp hC, hmore⟩
  | flush n =>
    simp only [step] at h
    split_ifs at h
    obtain rfl := Option.some.inj h
    refine ⟨?_, hmatched⟩
    cases hcur : s.current with
    | none =>
      rw [hcur] at hin
      exact ⟨hin.1, by simpa using hin.2⟩
    | some p =>
      rw [hcur] at hin
      exact inStep_move hin rfl rfl (by simp)
  | recv n =>
    cases hc : s.current with
    | none => simp [step, hc] at h
    | some p =>
      obtain ⟨c, got⟩ := p
      rw [hc] at hin
      simp only [step, hc] at h
      split_ifs at h
      obtain rfl := Option.some.inj h
      refine ⟨inStep_move hin rfl rfl ?_, hmatched⟩
      simp only [List.append_assoc]
      rw [← List.append_assoc (s.pipe.take n), List.take_append_drop]
  | finish =>
    cases hc : s.current with
    | none => simp [step, hc] at h
    | some p =>
      obtain ⟨c, got⟩ := p
      rw [hc] at hin
      simp only [step, hc] at h
      split_ifs at h with hen
      obtain rfl := Option.some.inj h
      obtain ⟨h₄, -, hmissing⟩ := hen
      obtain ⟨hpend, hrest, hmem⟩ := Answered.finished hin h₄ hmissing
      refine ⟨⟨hpend, hrest⟩, fun c' r hr => ?_⟩
      rcases List.mem_append.1 hr with hr | hr
      · exact hmatched c' r hr
      · rw [Option.mem_toList, Option.map_eq_some_iff] at hr
        obtain ⟨r', hr', he⟩ := hr
        obtain ⟨rfl, rfl⟩ := Prod.mk.inj he
        exact ⟨_, hmem, hr'⟩
  | refuse =>
    cases hc : s.current with
    | none => simp [step, hc] at h
    | some p =>
      obtain ⟨c, got⟩ := p
      rw [hc] at hin
      simp only [step, hc] at h
      split_ifs at h with hen
      obtain ⟨-, payload, -, hle, -, hann⟩ := Answered.of_inStep hin hen.1
      omega
  | timeout => exact hC.elim

/-- In a run without timeouts and over-long replies every response returned is the child's answer
to that very request. -/
theorem ipc_matched {ρ : Type} {decode : Kind → Bytes → Option ρ} {es : List Event} {s : State ρ}
    (hC : Along (step decode) Calm (start ρ) es) (h : run (step decode) (start ρ) es = some s) :
    Matched decode s :=
  (run_invariant inv_step (inv_start decode) hC h).2

/-- Two exchanges of one byte each, the second of them buffered. -/
theorem ipc_matched_two :
    ∃ s, run (step fun _ b => some b) (start Bytes)
      [.begin .raw, .answer [1], .flush 5, .recv 4, .recv 1, .finish,
        .begin .redeem, .answer [2], .flush 5, .recv 5, .finish] = some s ∧
      Matched (fun _ b => some b) s := by
  have hr : (run (step fun _ b => some b) (start Bytes)
      [.begin .raw, .answer [1], .flush 5, .recv 4, .recv 1, .finish,
        .begin .redeem, .answer [2], .flush 5, .recv 5, .finish]).isSome := by decide +kernel
  obtain ⟨s, hs⟩ := Option.isSome_iff_exists.1 hr
  exact ⟨s, hs, ipc_matched (by decide +kernel) hs⟩

/-- After a timeout the next call returns the late answer to the call that gave up. -/
theorem ipc_shifted_after_timeout :
    ∃ s, run (step fun _ b => some b) (start Bytes)
      [.begin .raw, .timeout, .begin .raw, .answer [1], .flush 5, .recv 4, .recv 1, .finish] =
        some s ∧
      s.answers = [(⟨0, .raw⟩, [1])] ∧ s.returned = [(⟨1, .raw⟩, [1])] ∧
      ¬ Matched (fun _ b => some b) s := by
  have hr : (run (step fun _ b => some b) (start Bytes)
      [.begin .raw, .timeout, .begin .raw, .answer [1], .flush 5, .recv 4, .recv 1, .finish]).map
      (fun s => (s.answers, s.returned)) =
      some ([(⟨0, .raw⟩, [1])], [(⟨1, .raw⟩, [1])]) := by decide +kernel
  obtain ⟨s, hs, he⟩ := Option.map_eq_some_iff.1 hr
  obtain ⟨ha, hret⟩ := Prod.mk.inj he
  refine ⟨s, hs, ha, hret, fun h => ?_⟩
  obtain ⟨payload, hmem, -⟩ := h ⟨1, .raw⟩ [1] (by simp [hret])
  simp [ha] at hmem

end Antie.LambdaIpc
