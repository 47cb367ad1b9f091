import AxiomCarriers.Lib.Bytes
import AxiomCarriers.Lib.Run
import Mathlib.Algebra.Group.Nat.Defs

/-!
# The tunnel to a Nabla node

`pump` (`tot/src/tunnel.rs`) relays between a WebSocket and a TCP connection with two loops that run
side by side under `try_join!`: one writes the binary messages of the client to the node, the other
sends what the node has sent to the client.  An error of the one drops the other where it is.

Both sides get their bytes in order (`Inv`).  A write to the node that fails is an error, so that it
also drops what the node has sent and the client has not got; where that does not happen the client
gets everything (`pump_delivers_iff`).
-/

namespace Tot.Tunnel

open Runs

/-- A message of the client; `other` is text, ping and pong. -/
inductive Message
  | binary (bytes : Bytes)
  | other
  | close
  deriving DecidableEq

/-- The bytes of binary messages. -/
def payload : List Message → Bytes
  | [] => []
  | .binary b :: ms => b ++ payload ms
  | _ :: ms => payload ms

/-- `client_to_nabla`: before `ws_rx.next()`, within `write_all`, and after the loop. -/
inductive Up
  | next
  | writing (left : Bytes)
  | done
  deriving DecidableEq

/-- `nabla_to_client`: before `tcp_rx.read()`, within `ws_tx.send()`, and after the loop, which ends
with the stream of the node or with a chunk that cannot be sent. -/
inductive Down
  | next
  | sending (chunk : Bytes)
  | closed
  | broken (chunk : Bytes)
  deriving DecidableEq

structure State where
  /-- The messages the client has sent, and those that are not received. -/
  clientSent : List Message
  inbound : List Message
  /-- The client has closed its WebSocket or lost it. -/
  gone : Bool
  up : Up
  /-- What is written to the node. -/
  nodeGot : Bytes
  /-- What the node has sent, and what is not read of it. -/
  nodeSent : Bytes
  incoming : Bytes
  nodeClosed : Bool
  down : Down
  /-- What is sent to the client. -/
  clientGot : Bytes
  /-- An error of one loop has ended both. -/
  ended : Bool
  deriving DecidableEq

def start : State := ⟨[], [], false, .next, [], [], [], false, .next, [], false⟩

inductive Event
  | clientSends (m : Message)
  | clientLeaves
  | nodeSends (b : Bytes)
  | nodeCloses
  | receive
  /-- `ws_rx.next()` gives an error or the end of the stream. -/
  | receiveEnds
  /-- `write_all` gets that many bytes written. -/
  | write (n : ℕ)
  | writeFails
  | read (n : ℕ)
  | readEnds
  /-- The connection of the node is reset; what has arrived is read before. -/
  | readFails
  | send
  | sendFails
  deriving DecidableEq

/-- The buffer of `nabla_to_client`. -/
def bufferSize : ℕ := 16 * 1024

def writing (b : Bytes) : Up := if b = [] then .next else .writing b

/-- `client_to_nabla` has received a message. -/
def Up.receive : Message → Up
  | .binary b => writing b
  | .other => .next
  | .close => .done

def step (s : State) : Event → Option State
  | .clientSends m =>
    if s.gone then none
    else some { s with
      clientSent := s.clientSent ++ [m], inbound := s.inbound ++ [m], gone := m = .close }
  | .clientLeaves => some { s with gone := true }
  | .nodeSends b =>
    if s.nodeClosed ∨ b = [] then none
    else some { s with nodeSent := s.nodeSent ++ b, incoming := s.incoming ++ b }
  | .nodeCloses => some { s with nodeClosed := true }
  | .receive =>
    if s.ended then none
    else
      match s.up, s.inbound with
      | .next, m :: inbound => some { s with inbound, up := Up.receive m }
      | _, _ => none
  | .receiveEnds => if s.ended ∨ s.up ≠ .next then none else some { s with up := .done }
  | .write n =>
    match s.up with
    | .writing left =>
      if s.ended ∨ n = 0 ∨ left.length < n then none
      else some { s with nodeGot := s.nodeGot ++ left.take n, up := writing (left.drop n) }
    | _ => none
  | .writeFails =>
    match s.up with
    | .writing _ => if s.ended then none else some { s with ended := true }
    | _ => none
  | .read n =>
    if s.ended ∨ s.down ≠ .next ∨ n = 0 ∨ s.incoming.length < n ∨ bufferSize < n then none
    else some { s with down := .sending (s.incoming.take n), incoming := s.incoming.drop n }
  | .readEnds =>
    if s.ended ∨ s.down ≠ .next ∨ ¬ s.nodeClosed ∨ s.incoming ≠ [] then none
    else some { s with down := .closed }
  | .readFails =>
    if s.ended ∨ s.down ≠ .next ∨ s.nodeClosed ∨ s.incoming ≠ [] then none
    else some { s with nodeClosed := true, ended := true }
  | .send =>
    match s.down with
    | .sending chunk =>
      if s.ended then none else some { s with clientGot := s.clientGot ++ chunk, down := .next }
    | _ => none
  | .sendFails =>
    match s.down with
    | .sending chunk =>
      if s.ended ∨ ¬ s.gone then none else some { s with down := .broken chunk }
    | _ => none

/-! ## What a step does -/

/-- The steps, with what has to be so before them. -/
inductive Step (s : State) : Event → State → Prop
  | clientSends {m : Message} (hgone : ¬ s.gone) :
    Step s (.clientSends m) { s with
      clientSent := s.clientSent ++ [m], inbound := s.inbound ++ [m], gone := m = .close }
  | clientLeaves : Step s .clientLeaves { s with gone := true }
  | nodeSends {b : Bytes} (hclosed : ¬ s.nodeClosed) (hb : b ≠ []) :
    Step s (.nodeSends b) { s with nodeSent := s.nodeSent ++ b, incoming := s.incoming ++ b }
  | nodeCloses : Step s .nodeCloses { s with nodeClosed := true }
  | receive {m : Message} {inbound : List Message} (hended : ¬ s.ended) (hup : s.up = .next)
    (hinbound : s.inbound = m :: inbound) :
    Step s .receive { s with inbound, up := Up.receive m }
  | receiveEnds (hended : ¬ s.ended) (hup : s.up = .next) :
    Step s .receiveEnds { s with up := .done }
  | write {left : Bytes} {n : ℕ} (hended : ¬ s.ended) (hup : s.up = .writing left) :
    Step s (.write n) { s with nodeGot := s.nodeGot ++ left.take n, up := writing (left.drop n) }
  | writeFails {left : Bytes} (hended : ¬ s.ended) (hup : s.up = .writing left) :
    Step s .writeFails { s with ended := true }
  | read {n : ℕ} (hended : ¬ s.ended) (hdown : s.down = .next) (hpos : 0 < n)
    (hn : n ≤ s.incoming.length) :
    Step s (.read n)
      { s with down := .sending (s.incoming.take n), incoming := s.incoming.drop n }
  | readEnds (hended : ¬ s.ended) (hdown : s.down = .next) (hclosed : s.nodeClosed)
    (hincoming : s.incoming = []) : Step s .readEnds { s with down := .closed }
  | readFails (hended : ¬ s.ended) (hdown : s.down = .next) (hincoming : s.incoming = []) :
    Step s .readFails { s with nodeClosed := true, ended := true }
  | send {chunk : Bytes} (hended : ¬ s.ended) (hdown : s.down = .sending chunk) :
    Step s .send { s with clientGot := s.clientGot ++ chunk, down := .next }
  | sendFails {chunk : Bytes} (hended : ¬ s.ended) (hdown : s.down = .sending chunk)
    (hgone : s.gone) : Step s .sendFails { s with down := .broken chunk }

variable {s s' : State} {e : Event} {es : List Event}

theorem step_spec (h : step s e = some s') : Step s e s' := by
  cases e with
  | clientSends m =>
    simp only [step] at h
    split_ifs at h with hgone
    exact Option.some.inj h ▸ .clientSends hgone
  | clientLeaves => exact Option.some.inj h ▸ .clientLeaves
  | nodeSends b =>
    simp only [step] at h
    split_ifs at h with hb
    rw [not_or] at hb
    exact Option.some.inj h ▸ .nodeSends hb.1 hb.2
  | nodeCloses => exact Option.some.inj h ▸ .nodeCloses
  | receive =>
    simp only [step] at h
    split_ifs at h with hended
    split at h
    next m inbound hup hinbound => exact Option.some.inj h ▸ .receive hended hup hinbound
    · cases h
  | receiveEnds =>
    simp only [step] at h
    split_ifs at h with hen
    rw [not_or, not_not] at hen
    exact Option.some.inj h ▸ .receiveEnds hen.1 hen.2
  | write n =>
    simp only [step] at h
    split at h
    next left hup =>
      split_ifs at h with hen
      exact Option.some.inj h ▸ .write (fun ho => hen (Or.inl ho)) hup
    · cases h
  | writeFails =>
    simp only [step] at h
    split at h
    next left hup =>
      split_ifs at h with hended
      exact Option.some.inj h ▸ .writeFails hended hup
    · cases h
  | read n =>
    simp only [step] at h
    split_ifs at h with hen
    simp only [not_or, not_not, Nat.not_lt] at hen
    obtain ⟨hended, hdown, hpos, hn, -⟩ := hen
    exact Option.some.inj h ▸ .read hended hdown (Nat.pos_of_ne_zero hpos) hn
  | readEnds =>
    simp only [step] at h
    split_ifs at h with hen
    simp only [not_or, not_not] at hen
    obtain ⟨hended, hdown, hclosed, hincoming⟩ := hen
    exact Option.some.inj h ▸ .readEnds hended hdown hclosed hincoming
  | readFails =>
    simp only [step] at h
    split_ifs at h with hen
    simp only [not_or, not_not] at hen
    obtain ⟨hended, hdown, -, hincoming⟩ := hen
    exact Option.some.inj h ▸ .readFails hended hdown hincoming
  | send =>
    simp only [step] at h
    split at h
    next chunk hdown =>
      split_ifs at h with hended
      exact Option.some.inj h ▸ .send hended hdown
    · cases h
  | sendFails =>
    simp only [step] at h
    split at h
    next chunk hdown =>
      split_ifs at h with hen
      rw [not_or, not_not] at hen
      exact Option.some.inj h ▸ .sendFails hen.1 hdown hen.2
    · cases h

/-! ## Both sides get their bytes in order -/

def Up.left : Up → Bytes
  | .writing b => b
  | .next | .done => []

def Down.chunk : Down → Bytes
  | .sending chunk | .broken chunk => chunk
  | .next | .closed => []

/-- What the node has sent and the client has not got. -/
def State.pending (s : State) : Bytes := s.down.chunk ++ s.incoming

@[simp] theorem left_writing (b : Bytes) : (writing b).left = b := by
  unfold writing
  split
  · rename_i h
    exact h.symm
  · rfl

theorem payload_append (ms ms' : List Message) :
    payload (ms ++ ms') = payload ms ++ payload ms' := by
  induction ms with
  | nil => rfl
  | cons m ms ih => cases m <;> simp [payload, ih]

theorem payload_cons (m : Message) (ms : List Message) :
    payload (m :: ms) = (Up.receive m).left ++ payload ms := by
  cases m <;> simp [payload, Up.receive, Up.left]

/-- What was sent is what has arrived and what is still on the way. -/
structure Inv (s : State) : Prop where
  up : payload s.clientSent = s.nodeGot ++ (s.up.left ++ payload s.inbound)
  down : s.nodeSent = s.clientGot ++ s.pending
  closed : s.down = .closed → s.nodeClosed ∧ s.incoming = []
  broken : ∀ chunk, s.down = .broken chunk → s.gone

theorem inv_start : Inv start := ⟨rfl, rfl, by simp [start], by simp [start]⟩

theorem Inv.step (h : Inv s) (hs : step s e = some s') : Inv s' := by
  obtain ⟨hup, hdown, hclosed, hbroken⟩ := h
  cases step_spec hs with
  | clientSends hgone =>
    refine ⟨by simp [payload_append, hup], hdown, hclosed, fun chunk hchunk => ?_⟩
    exact absurd (hbroken chunk hchunk) hgone
  | clientLeaves => exact ⟨hup, hdown, hclosed, fun _ _ => rfl⟩
  | nodeSends hopen =>
    refine ⟨hup, by simp [hdown, State.pending], fun hc => ?_, hbroken⟩
    exact absurd (hclosed hc).1 hopen
  | nodeCloses => exact ⟨hup, hdown, fun hc => ⟨rfl, (hclosed hc).2⟩, hbroken⟩
  | receive hended hnext hinbound =>
    refine ⟨?_, hdown, hclosed, hbroken⟩
    rw [hup, hnext, hinbound, payload_cons]
    rfl
  | receiveEnds hended hnext =>
    refine ⟨?_, hdown, hclosed, hbroken⟩
    rw [hup, hnext]
    rfl
  | write hended hwriting =>
    refine ⟨?_, hdown, hclosed, hbroken⟩
    rw [hup, hwriting, left_writing, List.append_assoc, ← List.append_assoc (List.take _ _),
      List.take_append_drop]
    rfl
  | writeFails => exact ⟨hup, hdown, hclosed, hbroken⟩
  | read hended hnext hpos hn =>
    refine ⟨hup, ?_, by simp, by simp⟩
    simp [hdown, State.pending, hnext, Down.chunk]
  | readEnds hended hnext hend hincoming =>
    refine ⟨hup, ?_, fun _ => ⟨hend, hincoming⟩, by simp⟩
    rw [hdown, State.pending, State.pending, hnext]
    rfl
  | readFails => exact ⟨hup, hdown, fun hc => ⟨rfl, (hclosed hc).2⟩, hbroken⟩
  | send hended hsending =>
    refine ⟨hup, ?_, by simp, by simp⟩
    simp [hdown, State.pending, hsending, Down.chunk]
  | sendFails hended hsending hgone =>
    refine ⟨hup, ?_, by simp, fun _ _ => hgone⟩
    rw [hdown, State.pending, State.pending, hsending]
    rfl

theorem inv_run (hr : run step start es = some s) : Inv s :=
  run_preserves (fun _ _ _ h hs => h.step hs) inv_start hr

/-! ## What the node sent -/

/-- A client that keeps its WebSocket open has got everything, once nothing more is sent to it. -/
def State.Delivered (s : State) : Prop :=
  s.gone = false → s.ended = true ∨ s.down = .closed → s.clientGot = s.nodeSent

/-- The step does not cost a client that is there anything: a write fails only when nothing of the
node is on the way, and a node whose connection was dropped sends nothing more. -/
def Harmless (s : State) : Event → Prop
  | .writeFails => s.gone = true ∨ s.pending = []
  | .nodeSends _ => s.ended = true → s.gone = true
  | _ => True

theorem clientGot_eq_iff (h : Inv s) : s.clientGot = s.nodeSent ↔ s.pending = [] := by
  rw [h.down]
  simp

/-- At a state where the loops were dropped by an error. -/
theorem delivered_iff (h : Inv s) :
    s.Delivered ↔ (s.ended = true → s.gone = true ∨ s.pending = []) := by
  unfold State.Delivered
  rw [clientGot_eq_iff h]
  constructor
  · intro hdel hended
    cases hgone : s.gone with
    | true => exact Or.inl rfl
    | false => exact Or.inr (hdel hgone (Or.inl hended))
  · rintro hended hgone (ho | hclosed)
    · exact (hended ho).resolve_left (by simp [hgone])
    · rw [State.pending, hclosed, (h.closed hclosed).2]
      rfl

theorem delivered_step_iff (h : Inv s) (hdel : s.Delivered) (hs : step s e = some s') :
    s'.Delivered ↔ Harmless s e := by
  rw [delivered_iff h] at hdel
  rw [delivered_iff (h.step hs)]
  cases step_spec hs with
  | clientSends hgone =>
    refine iff_of_true (fun hended => Or.inr ?_) trivial
    exact (hdel hended).resolve_left hgone
  | clientLeaves => exact iff_of_true (fun _ => Or.inl rfl) trivial
  | nodeSends hopen hb =>
    refine forall_congr' fun hended => or_iff_left ?_
    simp [State.pending, hb]
  | nodeCloses => exact iff_of_true hdel trivial
  | receive hended | receiveEnds hended | write hended | read hended | readEnds hended | send hended
  | sendFails hended => exact iff_of_true (fun ho => absurd ho hended) trivial
  | writeFails hended => exact ⟨fun hafter => hafter rfl, fun hharmless _ => hharmless⟩
  | readFails hended hnext hincoming =>
    refine iff_of_true (fun _ => Or.inr ?_) trivial
    rw [State.pending, hnext, hincoming]
    rfl

theorem delivered_along_iff (hr : run step start es = some s) :
    Along step Harmless start es ↔
      ∀ es' u, es' <+: es → run step start es' = some u → u.Delivered := by
  have hstep : ∀ s e s', Inv s ∧ s.Delivered → step s e = some s' →
      (Inv s' ∧ s'.Delivered ↔ Harmless s e) := by
    rintro s e s' ⟨h, hdel⟩ hs
    rw [← delivered_step_iff h hdel hs]
    exact and_iff_right (h.step hs)
  rw [along_iff_invariant hstep ⟨inv_start, fun _ h => by simp [start] at h⟩ hr]
  exact ⟨fun h es' u hle hu => (h es' u hle hu).2,
    fun h es' u hle hu => ⟨inv_run hu, h es' u hle hu⟩⟩

/-! ## The way to the client ends -/

/-- A successful step of `nabla_to_client`. -/
def Event.isDown : Event → Bool
  | .read _ | .readEnds | .send => true
  | _ => false

/-- A bound on the steps that `nabla_to_client` has left when the node has closed. -/
def State.left (s : State) : ℕ :=
  match s.down with
  | .next => 2 * s.incoming.length + 1
  | .sending _ => 2 * s.incoming.length + 2
  | .closed | .broken _ => 0

/-- As long as the loop has not ended it can go on. -/
theorem exists_down (hclosed : s.nodeClosed = true) (hended : s.ended = false) (hleft : 0 < s.left) :
    ∃ e s', e.isDown = true ∧ step s e = some s' := by
  cases hdown : s.down with
  | next =>
    by_cases hincoming : s.incoming = []
    · exact ⟨.readEnds, _, rfl, if_neg (by simp [hended, hdown, hclosed, hincoming])⟩
    · have hlen : ¬ s.incoming.length < 1 :=
        Nat.not_lt.2 (List.length_pos_of_ne_nil hincoming)
      refine ⟨.read 1, _, rfl, if_neg ?_⟩
      simp [hended, hdown, hlen, bufferSize]
  | sending chunk =>
    refine ⟨.send, { s with clientGot := s.clientGot ++ chunk, down := .next }, rfl, ?_⟩
    simp [step, hdown, hended]
  | closed => simp [State.left, hdown] at hleft
  | broken chunk => simp [State.left, hdown] at hleft

theorem left_step (hclosed : s.nodeClosed = true) (hs : step s e = some s') :
    s'.nodeClosed = true ∧ s'.left + (if e.isDown then 1 else 0) ≤ s.left := by
  cases step_spec hs with
  | clientSends | clientLeaves | receive | receiveEnds | write | writeFails =>
    exact ⟨hclosed, le_refl _⟩
  | nodeSends hopen => exact absurd hclosed hopen
  | nodeCloses | readFails => exact ⟨rfl, le_refl _⟩
  | read hended hdown hpos hn =>
    refine ⟨hclosed, ?_⟩
    simp only [State.left, hdown, Event.isDown, List.length_drop, if_true]
    omega
  | readEnds hended hdown =>
    refine ⟨hclosed, ?_⟩
    simp only [State.left, hdown, Event.isDown, if_true]
    omega
  | send hended hdown =>
    refine ⟨hclosed, ?_⟩
    simp only [State.left, hdown, Event.isDown, if_true]
    omega
  | sendFails =>
    refine ⟨hclosed, ?_⟩
    simp [State.left, Event.isDown]

theorem left_run (hclosed : s.nodeClosed = true) (hr : run step s es = some s') :
    s'.left + (es.filter Event.isDown).length ≤ s.left := by
  induction es generalizing s with
  | nil =>
    obtain rfl := Option.some.inj hr
    exact le_refl _
  | cons e es ih =>
    obtain ⟨t, hs, hr⟩ := run_cons_iff.1 hr
    obtain ⟨hclosed', hstep⟩ := left_step hclosed hs
    have hrest := ih hclosed' hr
    rw [List.filter_cons]
    split
    · rename_i hdown
      rw [if_pos hdown] at hstep
      rw [List.length_cons]
      omega
    · omega

/-- Where a client is there and the loop can do no more, it has got everything. -/
theorem clientGot_of_stuck (hr : run step start es = some s) (hclosed : s.nodeClosed = true)
    (hgone : s.gone = false) (halong : Along step Harmless start es)
    (hstuck : ∀ e, e.isDown = true → step s e = none) : s.clientGot = s.nodeSent := by
  refine (delivered_along_iff hr).1 halong es s (List.prefix_refl es) hr hgone ?_
  by_contra hne
  rw [not_or, Bool.not_eq_true] at hne
  have hleft : 0 < s.left := by
    cases hdown : s.down with
    | next => simp [State.left, hdown]
    | sending chunk => simp [State.left, hdown]
    | closed => exact absurd hdown hne.2
    | broken chunk => exact absurd ((inv_run hr).broken chunk hdown) (by simp [hgone])
  obtain ⟨e, s', he, hs⟩ := exists_down hclosed hne.1 hleft
  rw [hstuck e he] at hs
  cases hs

/-- In every run both sides get a beginning of what the other has sent.  A client that is there has
everything of the node, whenever nothing more is sent to it, if and only if writes to the node have
failed only with nothing on the way; the loop that sends to it then ends after a bounded number of
steps, and can always take one before. -/
theorem pump_delivers_iff (es : List Event) (s : State) (hr : run step start es = some s) :
    s.nodeGot <+: payload s.clientSent ∧ s.clientGot <+: s.nodeSent ∧
    (Along step Harmless start es ↔
      ∀ es' u, es' <+: es → run step start es' = some u → u.Delivered) ∧
    (s.nodeClosed = true → s.gone = false → Along step Harmless start es →
      (∀ e, e.isDown = true → step s e = none) → s.clientGot = s.nodeSent) ∧
    (s.nodeClosed = true → ∀ es' u, run step s es' = some u →
      (es'.filter Event.isDown).length ≤ s.left) := by
  have h := inv_run hr
  refine ⟨⟨_, h.up.symm⟩, ⟨_, h.down.symm⟩, delivered_along_iff hr, ?_, fun hclosed es' u hu => ?_⟩
  · exact fun hclosed hgone halong => clientGot_of_stuck hr hclosed hgone halong
  · exact (Nat.le_add_left _ _).trans (left_run hclosed hu)

/-- An orderly exchange of a request and a reply. -/
def exchange : List Event :=
  [.clientSends (.binary [1, 2]), .receive, .write 1, .nodeSends [3, 4], .write 1, .nodeCloses,
    .read 2, .send, .readEnds]

theorem pump_delivers_iff_exchange :
    ∃ s, run step start exchange = some s ∧ s.clientGot = [3, 4] ∧ s.nodeGot = [1, 2] ∧
      s.nodeGot <+: payload s.clientSent := by
  refine ⟨_, rfl, by decide, by decide, (pump_delivers_iff exchange _ rfl).1⟩

/-- The node replies and closes; a second message of the client meets the closed connection before
the reply is read, and the reply is never sent. -/
theorem reply_lost :
    ∃ s, run step start [.clientSends (.binary [1]), .receive, .write 1, .nodeSends [3, 4],
        .nodeCloses, .clientSends (.binary [2]), .receive, .writeFails] = some s ∧
      s.gone = false ∧ s.nodeClosed = true ∧ s.nodeSent = [3, 4] ∧ s.clientGot = [] ∧
      ∀ e, e.isDown = true → step s e = none := by
  refine ⟨_, rfl, rfl, rfl, rfl, rfl, fun e he => ?_⟩
  cases e <;> first | rfl | cases he

end Tot.Tunnel
