import AxiomCarriers.Antie.Outgoing
import AxiomCarriers.Seam.SessionFiles
import AxiomCarriers.Tot.Deliveries
import AxiomCarriers.Tot.Replies
import AxiomCarriers.Tot.Sessions

/-!
# Sessions from end to end

A client holds a WebSocket to TOT.  What it sends is stamped with the id of its session and written
to the inbox; ANTIE takes it from there, answers it, and deposits the reply in the directory that
the stamp names; TOT pumps the files of the directory down the WebSocket.  Here the three models of
these parts run as one system, with any number of connections and replies under way.

`session_isolated` says what a client can get to see: replies to what came in over its own session,
and to mail which names its session and came in some other way than through a session, or in a
session with a stamp of its own beside that of TOT.
-/

namespace Seam.Sessions

open Bytes Headers Runs Antie Antie.Gateway
open Antie.Custody (Dir Job files tmpFiles replyName)
open Fatmama (Path)
open Pickup (join)
open SessionFiles (Replies)
open Tot (SessionId Outbox OutboxEvent outboxStep stampValues)

/-! ## Answering a mail -/

/-- How ANTIE comes to a reply: `process_message`, or `send_busy_rejection`, which reads the mail
without the decryptor. -/
inductive Handling
  | processed (w : Outside) (limiter : RateLimiter)
  | busy (w : Outside) (decode : Bytes → Bytes → Decoded) (avgMs : ℕ)

def Handling.outside : Handling → Outside
  | .processed w _ | .busy w _ _ => w

/-- The mail as it is read, and the reply to it. -/
def Handling.reply (how : Handling) (raw : Bytes) : Option (Email × ResponsePayload) :=
  match how with
  | .processed w limiter =>
    if maxMessageBytes < raw.length ∨ (w.vbcDelivery raw).isSome then none
    else match parseEmailOutcome w.parser w.decode raw with
      | .ok email => if answersOutOfBand email then none else some (email, replyTo w limiter email)
      | _ => none
  | .busy w decode avgMs =>
    match parseEmailOutcome w.parser decode raw with
    | .ok email => some (email, busyReply email avgMs)
    | _ => none

/-- What TOT is started with, the working directory of ANTIE, and the `custody_outbox` of TOT. -/
structure Setup where
  tot : Tot.Server.Setup
  cwd : Path
  outbox : Path

/-- The session in whose directory the reply is deposited, where that is in the outbox of TOT. -/
def target (c : Setup) (w : Outside) (email : Email) : Option SessionId :=
  email.custody.bind fun stamp =>
    if stampDisagrees w stamp.1 email.sender then none
    else (custodyRoute w stamp.1).bind fun row =>
      if h : join c.cwd row.outbox = c.outbox ∧ stamp.2.length = 64 ∧ ∀ b ∈ stamp.2, Tot.isHex b then
        some ⟨stamp.2, h.2.1, h.2.2⟩
      else none

/-! ## The system -/

/-- A mail that was answered, the session that the reply is for, and the reply. -/
structure Answer where
  raw : Bytes
  session : Option SessionId
  reply : Bytes
  deriving DecidableEq

/-- Where the `pump_replies` of a connection is, with what it has read. -/
inductive Pump
  | idle
  | next (names : List Bytes)
  | read (name bytes : Bytes) (names : List Bytes)
  | sent (name : Bytes) (names : List Bytes)
  deriving DecidableEq

/-- The server of TOT, the session directories with the deposits under way, and the pump of every
connection; and what has happened: the sessions opened, the mails answered, and what was sent on
every connection. -/
structure State where
  tot : Tot.Server.State
  outbox : Outbox
  pump : ℕ → Pump
  opened : List (ℕ × SessionId)
  answers : List Answer
  sent : ℕ → List Bytes

/-- TOT has started, with files in its inbox, and deposits of ANTIE under way. -/
def start (c : Setup) (inbox : Tot.Inbox) (dirs : SessionId → Option (Dir Bytes))
    (jobs : List (SessionId × Job Bytes)) : State :=
  ⟨Tot.Server.started c.tot inbox, Tot.started dirs jobs, fun _ => .idle, [], [], fun _ => []⟩

inductive Event
  | tot (e : Tot.Server.Event)
  /-- ANTIE answers a file that it has taken; `encoded` is the text of the reply's body. -/
  | answer (name : Bytes) (how : Handling) (stamp : Outgoing.Stamp) (encoded : Bytes)
  /-- The next step of a deposit. -/
  | deposit (j : ℕ)
  /-- The next step of the removal of a session's directory. -/
  | cleanup (id : SessionId)
  /-- The pump of a connection lists its directory, reads a file, sends what it has read, and
  removes the file. -/
  | list (k : ℕ)
  | read (k : ℕ)
  | send (k : ℕ)
  | remove (k : ℕ)

/-- The connection of an event of TOT. -/
def connOf : Tot.Server.Event → Option ℕ
  | .accept k | .head k _ | .upgraded k _ _ _ _ | .body k _ | .message k _ _ | .closed k
  | .fails k _ | .draw k _ _ | .io k _ => some k
  | .take _ => none

def originSession : Tot.Server.Origin → Option SessionId
  | .session id => some id
  | _ => none

/-- The session of a connection, as long as it is open. -/
def sessionOf : Tot.Server.Task → Option SessionId
  | .waiting o => originSession o
  | .delivering x _ => originSession x.origin
  | _ => none

def State.session (s : State) (k : ℕ) : Option SessionId := sessionOf (s.tot.conns k).task

/-- The directory of a session is created when it opens, and removed when it ends, wherever the pump
is. -/
def State.follow (s : State) (t : Tot.Server.State) (k : ℕ) : Option State :=
  match s.session k, sessionOf (t.conns k).task with
  | none, some id => (outboxStep s.outbox (.open id)).map fun o =>
      { s with tot := t, outbox := o, opened := s.opened ++ [(k, id)] }
  | some id, none => (outboxStep s.outbox (.close id)).map fun o =>
      { s with tot := t, outbox := o, pump := Function.update s.pump k .idle }
  | _, _ => some { s with tot := t }

/-- A session goes on when its pump is through, or fails with it. -/
def State.pumpAllows (s : State) (k : ℕ) : Tot.Server.Event → Bool
  | .fails _ _ => true
  | _ => s.pump k = .idle

/-- The reply goes out, or into a directory. -/
def State.answered (s : State) (c : Setup) (how : Handling) (stamp : Outgoing.Stamp)
    (encoded raw : Bytes) : Option State :=
  (how.reply raw).bind fun (email, payload) =>
    match Outgoing.buildResponse email.sender how.outside.identity
      (if payload.success then ascii "witness_response" else ascii "error") payload.requestId stamp
      email.messageId encoded with
    | .error _ => some s
    | .ok reply =>
      let session := target c how.outside email
      let answers := s.answers ++ [⟨raw, session, reply⟩]
      match session with
      | none => some { s with answers }
      | some id => (outboxStep s.outbox (.reply id payload.requestId reply)).map fun o =>
          { s with outbox := o, answers }

/-- The names that `pump_replies` goes through, in order. -/
def listing (d : Option (Dir Bytes)) : List Bytes :=
  ((Table.keys (files d)).filter Tot.Replies.isCbor).insertionSort (· ≤ ·)

def State.setPump (s : State) (k : ℕ) (p : Pump) : State :=
  { s with pump := Function.update s.pump k p }

def step (c : Setup) (s : State) : Event → Option State
  | .tot e => (Tot.Server.step c.tot s.tot e).bind fun t =>
    match connOf e with
    | none => some { s with tot := t }
    | some k => if s.pumpAllows k e then s.follow t k else none
  | .answer name how stamp encoded =>
    (Table.get s.tot.taken name).bind (s.answered c how stamp encoded)
  | .deposit j => (outboxStep s.outbox (.deposit j)).map fun o => { s with outbox := o }
  | .cleanup id => (outboxStep s.outbox (.remove id)).map fun o => { s with outbox := o }
  | .list k => match s.pump k, (s.tot.conns k).task with
    | .idle, .waiting (.session id) => some (s.setPump k (.next (listing (s.outbox.dirs id))))
    | _, _ => none
  | .read k => match s.pump k, s.session k with
    | .next [], _ => some (s.setPump k .idle)
    | .next (name :: names), some id =>
      (Table.get (files (s.outbox.dirs id)) name).map fun bytes =>
        s.setPump k (.read name bytes names)
    | _, _ => none
  | .send k => match s.pump k with
    | .read name bytes names => some { s.setPump k (.sent name names) with
        sent := Function.update s.sent k (s.sent k ++ [bytes]) }
    | _ => none
  | .remove k => match s.pump k, s.session k with
    | .sent name names, some id => (outboxStep s.outbox (.pumped id name)).map fun o =>
        { s.setPump k (.next names) with outbox := o }
    | _, _ => none

/-! ## What a directory holds -/

/-- The entries of a directory. -/
def entries (d : Option (Dir Bytes)) : List (Bytes × Bytes) := tmpFiles d ++ files d

/-- Something for the session is in its directory or on its way there. -/
def Holds (o : Outbox) (id : SessionId) (b : Bytes) : Prop :=
  (∃ p ∈ o.jobs, p.1 = id ∧ p.2.content = b) ∨
    ∃ f ∈ entries (o.dirs id), f.2 = b

variable {o o' : Outbox} {id : SessionId} {b : Bytes}

theorem holds_job {p : SessionId × Job Bytes} (hp : p ∈ o.jobs) : Holds o p.1 p.2.content :=
  .inl ⟨p, hp, rfl, rfl⟩

theorem holds_entry {f : Bytes × Bytes} (hf : f ∈ entries (o.dirs id)) : Holds o id f.2 :=
  .inr ⟨f, hf, rfl⟩

/-- A directory whose entries were there before, or on their way to it, brings nothing new. -/
theorem holds_set {d : Option (Dir Bytes)} {jobs : List (SessionId × Job Bytes)}
    (hd : ∀ f ∈ entries d, Holds o id f.2) (hjobs : ∀ p ∈ jobs, Holds o p.1 p.2.content)
    {i : SessionId} (h : Holds { o.setDir id d with jobs } i b) : Holds o i b := by
  rcases h with ⟨p, hp, rfl, rfl⟩ | ⟨f, hf, rfl⟩
  · exact hjobs p hp
  · by_cases hi : i = id
    · subst hi
      exact hd f (by simpa [Outbox.setDir] using hf)
    · exact holds_entry (by simpa [Outbox.setDir, Function.update_of_ne hi] using hf)

theorem mem_entries {d : Dir Bytes} {f : Bytes × Bytes} :
    f ∈ entries (some d) ↔ (∃ t, d.tmp = some t ∧ f ∈ t) ∨ f ∈ d.files := by
  obtain ⟨tmp, fs⟩ := d
  cases tmp <;> simp [entries, files, tmpFiles]

/-- A removal brings nothing new. -/
theorem holds_removeStep {d : Dir Bytes} (hd : o.dirs id = some d) (tmp : Option (List Bytes))
    (names : List Bytes) {i : SessionId} (h : Holds (o.removeStep id d tmp names) i b) :
    Holds o i b := by
  have hold : ∀ f, (∃ t, d.tmp = some t ∧ f ∈ t) ∨ f ∈ d.files → Holds o id f.2 := fun f hf =>
    holds_entry (hd ▸ mem_entries.2 hf)
  match tmp, names, h with
  | some (name :: tmp), names, h =>
    refine holds_set (d := some { d with tmp := d.tmp.map (Table.del · name) })
      (fun f hf => hold f ((mem_entries.1 hf).imp_left ?_)) (fun p => holds_job) h
    rintro ⟨t, ht, hf⟩
    obtain ⟨t', ht', rfl⟩ := Option.map_eq_some_iff.1 ht
    exact ⟨t', ht', (Table.mem_of_mem_del hf).1⟩
  | some [], names, h =>
    rw [Outbox.removeStep] at h
    split_ifs at h
    · refine holds_set (d := some { d with tmp := none }) (fun f hf => hold f (.inr ?_))
        (fun p => holds_job) h
      exact (mem_entries.1 hf).resolve_left (by simp)
    · exact h
  | none, name :: names, h =>
    refine holds_set (d := some { d with files := Table.del d.files name })
      (fun f hf => hold f ((mem_entries.1 hf).imp_right ?_)) (fun p => holds_job) h
    exact fun hf => (Table.mem_of_mem_del hf).1
  | none, [], h =>
    rw [Outbox.removeStep] at h
    split_ifs at h
    · exact holds_set (by simp [entries, files, tmpFiles]) (fun p => holds_job) h
    · exact h

/-- A step of a deposit brings nothing new. -/
theorem holds_advance {j : Job Bytes} {d : Dir Bytes} {j' : Option (Job Bytes)}
    (hj : (id, j) ∈ o.jobs) (h : j.advance (o.dirs id) = some (d, j')) :
    (∀ f ∈ entries (some d), Holds o id f.2) ∧ ∀ j₁ ∈ j', Holds o id j₁.content := by
  have hcontent : Holds o id j.content := holds_job hj
  rcases Antie.Custody.advance_cases h with
    ⟨-, rfl, hfiles, htmp⟩ | ⟨-, rfl, hfiles, htmp⟩ | ⟨-, rfl, c, hc, hfiles, htmp⟩
  · refine ⟨fun f hf => holds_entry ?_, by simpa using hcontent⟩
    rwa [entries, hfiles, htmp] at hf
  · refine ⟨fun f hf => ?_, by simpa using hcontent⟩
    rw [entries, hfiles, htmp, List.mem_append] at hf
    rcases hf with hf | hf
    · rcases Table.mem_of_mem_put hf with rfl | hf
      · exact hcontent
      · exact holds_entry (List.mem_append_left _ hf)
    · exact holds_entry (List.mem_append_right _ hf)
  · refine ⟨fun f hf => ?_, by simp⟩
    rw [entries, hfiles, htmp, List.mem_append] at hf
    rcases hf with hf | hf
    · exact holds_entry (List.mem_append_left _ (Table.mem_of_mem_del hf).1)
    · rcases Table.mem_of_mem_put hf with rfl | hf
      · exact holds_entry (List.mem_append_left _ (Table.mem_of_get hc))
      · exact holds_entry (List.mem_append_right _ hf)

/-- Only a reply to a session brings something new for it. -/
theorem holds_step {e : OutboxEvent} (h : outboxStep o e = some o') (hb : Holds o' id b) :
    Holds o id b ∨ ∃ requestId, e = .reply id requestId b := by
  cases e with
  | «open» i =>
    simp only [outboxStep] at h
    split_ifs at h
    obtain rfl := Option.some.inj h
    refine .inl (holds_set (fun f hf => ?_) (fun p => holds_job) hb)
    cases hd : o.dirs i with
    | none => simp [hd, entries, files, tmpFiles, Dir.empty] at hf
    | some d =>
      rw [hd] at hf
      exact holds_entry (hd ▸ hf)
  | close i =>
    simp only [outboxStep] at h
    split_ifs at h
    cases hd : o.dirs i <;> rw [hd] at h <;> obtain rfl := Option.some.inj h <;> exact .inl hb
  | remove i =>
    simp only [outboxStep] at h
    split at h
    · rename_i hd
      obtain rfl := Option.some.inj h
      exact .inl (holds_removeStep hd _ _ hb)
    · obtain rfl := Option.some.inj h
      exact .inl hb
    · cases h
  | reply i requestId bytes =>
    simp only [outboxStep] at h
    split at h
    · rename_i j hj
      obtain rfl := Option.some.inj h
      rcases hb with ⟨p, hp, rfl, rfl⟩ | hf
      · rcases List.mem_append.1 hp with hp | hp
        · exact .inl (holds_job hp)
        · obtain rfl := List.mem_singleton.1 hp
          refine .inr ⟨requestId, ?_⟩
          rw [Antie.Custody.deposit] at hj
          split_ifs at hj
          obtain rfl := Option.some.inj hj
          rfl
      · exact .inl (.inr hf)
    · obtain rfl := Option.some.inj h
      exact .inl hb
  | deposit k =>
    simp only [outboxStep] at h
    split at h
    · rename_i i j hj
      have hmem := List.mem_of_getElem? hj
      have herase : ∀ p ∈ o.jobs.eraseIdx k, Holds o p.1 p.2.content := fun p hp =>
        holds_job (List.mem_of_mem_eraseIdx hp)
      split at h <;> obtain rfl := Option.some.inj h
      · rename_i d j' hadv
        obtain ⟨hd, hj'⟩ := holds_advance hmem hadv
        refine .inl (holds_set hd (fun p hp => ?_) hb)
        rcases List.mem_or_eq_of_mem_set hp with hp | rfl
        · exact holds_job hp
        · exact hj' j' rfl
      · rename_i d hadv
        exact .inl (holds_set (holds_advance hmem hadv).1 herase hb)
      · refine .inl (hb.elim ?_ .inr)
        rintro ⟨p, hp, rfl, rfl⟩
        exact herase p hp
    · cases h
  | pumped i name =>
    simp only [outboxStep] at h
    split at h
    · rename_i d hs hd
      obtain rfl := Option.some.inj h
      refine .inl (holds_set (fun f hf => holds_entry ?_) (fun p => holds_job) hb)
      rw [hd]
      exact mem_entries.2 ((mem_entries.1 hf).imp_right fun hf => (Table.mem_of_mem_del hf).1)
    · cases h

/-! ## What a step of TOT does to the sessions -/

/-- A connection that has not told its leg yet. -/
def Early (task : Tot.Server.Task) : Prop := task = .idle ∨ task = .head ∨ task = .handshake

/-- Only the connection of the step goes on; it gets a session at its handshake, and what it admits
is of its session. -/
structure Moves (s t : Tot.Server.State) (e : Tot.Server.Event) : Prop where
  others : ∀ j, connOf e ≠ some j → (t.conns j).task = (s.conns j).task
  early : ∀ k, connOf e = some k → Early (t.conns k).task → Early (s.conns k).task
  session : ∀ k id, connOf e = some k → sessionOf (t.conns k).task = some id →
    sessionOf (s.conns k).task = some id ∨ Early (s.conns k).task ∧
      ∃ path random now dir, ∃ h : random.length = 32,
        e = .upgraded k path random now dir ∧ id = .mint random h
  logged : ∀ x ∈ t.log, x ∈ s.log ∨ connOf e = some x.conn ∧
    ∀ id, x.origin = .session id → sessionOf (s.conns x.conn).task = some id
  taken : ∀ p ∈ s.taken, p ∈ t.taken

variable {s t : Tot.Server.State} {e : Tot.Server.Event} {k : ℕ}

theorem Moves.set {conn : Tot.Server.Conn} (he : connOf e = some k)
    (hconns : t.conns = Function.update s.conns k conn)
    (hearly : Early conn.task → Early (s.conns k).task)
    (hsession : ∀ id, sessionOf conn.task = some id → sessionOf (s.conns k).task = some id ∨
      Early (s.conns k).task ∧ ∃ path random now dir, ∃ h : random.length = 32,
        e = .upgraded k path random now dir ∧ id = .mint random h)
    (hlogged : ∀ x ∈ t.log, x ∈ s.log ∨ x.conn = k ∧
      ∀ id, x.origin = .session id → sessionOf (s.conns k).task = some id)
    (htaken : t.taken = s.taken) : Moves s t e where
  others j hj := by
    have hne : j ≠ k := fun h => hj (h ▸ he)
    rw [hconns, Function.update_of_ne hne]
  early j hj := by
    obtain rfl := Option.some.inj (he.symm.trans hj)
    rwa [hconns, Function.update_self]
  session j id hj := by
    obtain rfl := Option.some.inj (he.symm.trans hj)
    rw [hconns, Function.update_self]
    exact hsession id
  logged x hx := (hlogged x hx).imp_right fun h => by
    obtain ⟨rfl, horigin⟩ := h
    exact ⟨he, horigin⟩
  taken p hp := htaken ▸ hp

/-- A step that admits nothing, and ends the connection or leaves its session. -/
theorem Moves.keep {conn : Tot.Server.Conn} (he : connOf e = some k)
    (hconns : t.conns = Function.update s.conns k conn)
    (hearly : Early conn.task → Early (s.conns k).task)
    (hsession : ∀ id, sessionOf conn.task = some id → sessionOf (s.conns k).task = some id)
    (hlog : t.log = s.log) (htaken : t.taken = s.taken) : Moves s t e :=
  .set he hconns hearly (fun id h => .inl (hsession id h)) (fun _ hx => .inl (hlog ▸ hx)) htaken

theorem not_early_ended (r : Except String Unit) : ¬ Early (.ended r) := by simp [Early]

theorem Moves.ends {conn : Tot.Server.Conn} {r : Except String Unit} (he : connOf e = some k)
    (hconns : t.conns = Function.update s.conns k conn) (htask : conn.task = .ended r)
    (hlog : t.log = s.log) (htaken : t.taken = s.taken) : Moves s t e :=
  .keep he hconns (fun h => absurd (htask ▸ h) (not_early_ended r))
    (fun id h => by simp [htask, sessionOf] at h) hlog htaken

theorem moves_head (c : Tot.Server.Setup) {bytes : Bytes} (htask : (s.conns k).task = .head) :
    Moves s (Tot.Server.onHead c s k bytes) (.head k bytes) := by
  have hearly : Early (s.conns k).task := .inr (.inl htask)
  unfold Tot.Server.onHead
  split_ifs
  · exact .keep rfl rfl (fun _ => hearly) (fun id h => by simp [sessionOf] at h) rfl rfl
  · dsimp only
    split_ifs
    · exact .ends rfl rfl rfl rfl rfl
    · exact .ends rfl rfl rfl rfl rfl
    · exact .keep rfl rfl (fun _ => hearly) (fun id h => by simp [sessionOf] at h) rfl rfl

theorem moves_dial {name set : String} {nodes : List Tot.NablaNode} {idx : ℕ}
    (he : connOf e = some k) : Moves s (Tot.Server.dial s k name nodes idx set) e := by
  unfold Tot.Server.dial
  split
  · exact .keep he rfl (fun h => by simp [Early] at h) (fun id h => by simp [sessionOf] at h) rfl rfl
  · exact .ends he rfl rfl rfl rfl

theorem moves_upgraded (c : Tot.Server.Setup) {path random : Bytes} {now : ℕ} {dir : Bool}
    (htask : (s.conns k).task = .handshake) :
    Moves s (Tot.Server.onUpgraded c s k path random now dir) (.upgraded k path random now dir) := by
  have hearly : Early (s.conns k).task := .inr (.inr htask)
  unfold Tot.Server.onUpgraded
  split
  · exact .keep rfl rfl (fun h => by simp [Early] at h) (fun id h => nomatch h) rfl rfl
  · split_ifs with hrandom
    · refine .set rfl rfl (fun _ => hearly) (fun id h => .inr ⟨hearly, path, random, now, dir,
        hrandom, rfl, ?_⟩) (fun _ hx => .inl hx) rfl
      exact (Option.some.inj h).symm
    · exact .ends rfl rfl rfl rfl rfl
    · exact .ends rfl rfl rfl rfl rfl
    · exact .ends rfl rfl rfl rfl rfl
  · exact moves_dial rfl
  · exact moves_dial rfl
  · exact .ends rfl rfl rfl rfl rfl

theorem moves_binary (c : Tot.Server.Setup) {o : Tot.Server.Origin} {bytes : Bytes} {now : ℕ}
    (htask : (s.conns k).task = .waiting o) :
    Moves s (Tot.Server.onBinary c s k o bytes now) (.message k (.binary bytes) now) := by
  have hsession : sessionOf (s.conns k).task = originSession o := by rw [htask, sessionOf]
  unfold Tot.Server.onBinary
  dsimp only
  split_ifs
  · exact .ends rfl rfl rfl rfl rfl
  · cases o.content bytes with
    | error text => exact .ends rfl rfl rfl rfl rfl
    | ok out =>
      refine .set rfl rfl (fun h => by simp [Early] at h) (fun id h => .inl (hsession.trans h))
        (fun x hx => ?_) rfl
      rcases List.mem_append.1 hx with hx | hx
      · exact .inl hx
      · obtain rfl := List.mem_singleton.1 hx
        refine .inr ⟨rfl, fun id ho => ?_⟩
        rw [hsession, show o = .session id from ho, originSession]
  · exact .ends rfl rfl rfl rfl rfl

theorem moves_io {x : Tot.Server.Entry} {stage : Tot.Server.Stage} {result : Tot.Server.Io}
    (htask : (s.conns k).task = .delivering x stage)
    (h : Tot.Server.onIo s k x stage result = some t) : Moves s t (.io k result) := by
  have hsession : sessionOf (s.conns k).task = originSession x.origin := by rw [htask, sessionOf]
  have hon {conn : Tot.Server.Conn} {stage' : Tot.Server.Stage} {t : Tot.Server.State}
      (hconns : t.conns = Function.update s.conns k conn)
      (hconn : conn.task = .delivering x stage') (hlog : t.log = s.log)
      (htaken : t.taken = s.taken) : Moves s t (.io k result) :=
    .keep rfl hconns (fun h => by simp [hconn, Early] at h)
      (fun id h => by rw [hsession, ← h, hconn, sessionOf]) hlog htaken
  unfold Tot.Server.onIo at h
  split at h
  · obtain rfl := Option.some.inj h
    exact hon rfl rfl rfl rfl
  · split_ifs at h
    obtain rfl := Option.some.inj h
    exact hon rfl rfl rfl rfl
  · split_ifs at h
    obtain rfl := Option.some.inj h
    exact hon rfl rfl rfl rfl
  · obtain ⟨bytes, -, rfl⟩ := Option.map_eq_some_iff.1 h
    exact hon rfl rfl rfl rfl
  · obtain rfl := Option.some.inj h
    split_ifs
    · exact .ends rfl rfl rfl rfl rfl
    · exact .keep rfl rfl (fun h => by simp [Early] at h) (fun id h => hsession.trans h) rfl rfl
  all_goals first
    | (obtain rfl := Option.some.inj h
       exact .ends rfl rfl rfl rfl rfl)
    | cases h

theorem moves_step {c : Tot.Server.Setup} (h : Tot.Server.step c s e = some t) : Moves s t e := by
  cases e with
  | accept k =>
    simp only [Tot.Server.step] at h
    split_ifs at h with htask
    obtain rfl := Option.some.inj h
    exact .keep rfl rfl (fun _ => .inl htask) (fun id h => by simp [sessionOf] at h) rfl rfl
  | head k bytes =>
    simp only [Tot.Server.step] at h
    split_ifs at h with htask
    obtain rfl := Option.some.inj h
    exact moves_head c htask.1
  | upgraded k path random now dir =>
    simp only [Tot.Server.step] at h
    split_ifs at h with htask
    obtain rfl := Option.some.inj h
    exact moves_upgraded c htask
  | body k bytes =>
    simp only [Tot.Server.step] at h
    split at h
    · split_ifs at h
      obtain rfl := Option.some.inj h
      refine .set rfl rfl (fun h => by simp [Early] at h) (fun id h => by cases h)
        (fun x hx => ?_) rfl
      rcases List.mem_append.1 hx with hx | hx
      · exact .inl hx
      · obtain rfl := List.mem_singleton.1 hx
        exact .inr ⟨rfl, fun id ho => by cases ho⟩
    · cases h
  | message k m now =>
    simp only [Tot.Server.step] at h
    split at h
    · rename_i htask
      obtain rfl := Option.some.inj h
      exact moves_binary c htask
    · obtain rfl := Option.some.inj h
      exact .keep rfl (Function.update_eq_self k s.conns).symm (fun h => h) (fun id h => h) rfl rfl
    · obtain rfl := Option.some.inj h
      exact .ends rfl rfl rfl rfl rfl
    · cases h
  | closed k =>
    simp only [Tot.Server.step] at h
    split at h <;> first
      | (obtain rfl := Option.some.inj h
         exact .ends rfl rfl rfl rfl rfl)
      | cases h
  | fails k text =>
    simp only [Tot.Server.step] at h
    split at h <;> first
      | (obtain rfl := Option.some.inj h
         exact .ends rfl rfl rfl rfl rfl)
      | cases h
  | draw k secs nanos =>
    simp only [Tot.Server.step] at h
    split at h
    · rename_i x htask
      obtain rfl := Option.some.inj h
      refine .keep rfl rfl (fun h => by simp [Early] at h) (fun id h => ?_) rfl rfl
      rw [htask]
      exact h
    · cases h
  | io k result =>
    simp only [Tot.Server.step] at h
    split at h
    · rename_i x stage htask
      exact moves_io htask h
    · cases h
  | take name =>
    obtain ⟨bytes, -, rfl⟩ := Option.map_eq_some_iff.1 h
    exact ⟨fun _ _ => rfl, fun _ hk => (by cases hk), fun _ _ hk => (by cases hk),
      fun _ hx => .inl hx, fun p hp => List.mem_append_left _ hp⟩

/-! ## What is kept -/

/-- `mail_parser` returns the value of the header of TOT where the mail has one only, up to white
space around it. -/
def Event.Reads : Event → Prop
  | .answer _ how _ _ => ∀ raw m v, how.outside.parser raw = some m → stampValues raw = [v] →
      ∃ r, m.headerRaw (ascii "X-TOT-Session") = some r ∧ Text.trim r = Text.trim v
  | _ => True

/-- Nothing names the session. -/
def Unused (s : State) (id : SessionId) : Prop :=
  (∀ p ∈ s.opened, p.2 ≠ id) ∧ s.outbox.dirs id = none ∧ ∀ p ∈ s.outbox.jobs, p.1 ≠ id

/-- The random bytes of a new session have not come up before. -/
def Fresh (s : State) : Event → Prop
  | .tot (.upgraded _ _ random _ _) => ∀ h : random.length = 32, Unused s (.mint random h)
  | _ => True

instance decidableFresh (s : State) : ∀ e, Decidable (Fresh s e)
  | .tot (.upgraded _ _ random _ _) =>
    inferInstanceAs (Decidable (∀ h : random.length = 32,
      (∀ p ∈ s.opened, p.2 ≠ .mint random h) ∧ s.outbox.dirs (.mint random h) = none ∧
        ∀ p ∈ s.outbox.jobs, p.1 ≠ .mint random h))
  | .tot (.accept _) | .tot (.head _ _) | .tot (.body _ _) | .tot (.message _ _ _)
  | .tot (.closed _) | .tot (.fails _ _) | .tot (.draw _ _ _) | .tot (.io _ _) | .tot (.take _)
  | .answer _ _ _ _ | .deposit _ | .cleanup _ | .list _ | .read _ | .send _ | .remove _ =>
    instDecidableTrue

/-- The reply was made for the session. -/
def State.For (s : State) (id : SessionId) (b : Bytes) : Prop :=
  ∃ a ∈ s.answers, a.session = some id ∧ a.reply = b

/-- A reply for a session answers no mail with the stamp of another. -/
def Answer.Fits (a : Answer) : Prop :=
  ∀ id, a.session = some id → ∀ id' : SessionId, stampValues a.raw = [id'.hex] → id' = id

structure Inv (c : Setup) (inbox : Tot.Inbox) (s : State) : Prop where
  server : Tot.Server.Inv c.tot inbox s.tot
  live : ∀ k id, s.session k = some id → (k, id) ∈ s.opened
  late : ∀ p ∈ s.opened, ¬ Early (s.tot.conns p.1).task
  ids : (s.opened.map Prod.snd).Nodup
  conns : (s.opened.map Prod.fst).Nodup
  logged : ∀ x ∈ s.tot.log, ∀ id, x.origin = .session id → (x.conn, id) ∈ s.opened
  answered : ∀ a ∈ s.answers, a.raw ∈ s.tot.taken.map Prod.snd ∧ a.Fits
  held : ∀ p ∈ s.opened, ∀ b, Holds s.outbox p.2 b → s.For p.2 b
  reading : ∀ k name b names, s.pump k = .read name b names → ∃ id, (k, id) ∈ s.opened ∧ s.For id b
  sent : ∀ k, ∀ b ∈ s.sent k, ∃ id, (k, id) ∈ s.opened ∧ s.For id b

variable {c : Setup} {inbox : Tot.Inbox} {s s' : State}

theorem inv_start (hkeys : (Table.keys inbox.new).Nodup) (dirs : SessionId → Option (Dir Bytes))
    (jobs : List (SessionId × Job Bytes)) : Inv c inbox (start c inbox dirs jobs) where
  server := Tot.Server.inv_started hkeys
  live _ _ h := nomatch h
  late _ hp := absurd hp List.not_mem_nil
  ids := List.nodup_nil
  conns := List.nodup_nil
  logged _ hx := absurd hx List.not_mem_nil
  answered _ ha := absurd ha List.not_mem_nil
  held _ hp := absurd hp List.not_mem_nil
  reading _ _ _ _ h := nomatch h
  sent _ _ hb := absurd hb List.not_mem_nil

theorem not_early_of_session {task : Tot.Server.Task} {id : SessionId}
    (h : sessionOf task = some id) : ¬ Early task := by
  rintro (rfl | rfl | rfl) <;> cases h

/-- A step of TOT, with the session that it opens. -/
theorem Inv.moves (h : Inv c inbox s) {e : Tot.Server.Event} {t : Tot.Server.State}
    (ht : Tot.Server.step c.tot s.tot e = some t)
    {o : Outbox} (ho : ∀ id b, Holds o id b → Holds s.outbox id b) {pump : ℕ → Pump}
    (hpump : ∀ k name b names, pump k = .read name b names → s.pump k = .read name b names)
    (new : Option (ℕ × SessionId))
    (hnew : ∀ p ∈ new, connOf e = some p.1 ∧ Early (s.tot.conns p.1).task ∧
      sessionOf (t.conns p.1).task = some p.2 ∧ Unused s p.2)
    (hlive : ∀ k id, connOf e = some k → sessionOf (t.conns k).task = some id →
      (k, id) ∈ s.opened ++ new.toList) :
    Inv c inbox { s with tot := t, outbox := o, pump, opened := s.opened ++ new.toList } := by
  have hmoves := moves_step ht
  have hold : ∀ {p}, p ∈ s.opened → p ∈ s.opened ++ new.toList := fun hp =>
    List.mem_append_left _ hp
  have hlate : ∀ p ∈ s.opened, ¬ Early (t.conns p.1).task := fun p hp hearly => by
    by_cases hk : connOf e = some p.1
    · exact h.late p hp (hmoves.early p.1 hk hearly)
    · exact h.late p hp (hmoves.others p.1 hk ▸ hearly)
  refine ⟨Tot.Server.inv_step h.server ht, fun k id hk => ?_, fun p hp => ?_, ?_, ?_,
    fun x hx id hid => ?_, fun a ha => ?_, fun p hp b hb => ?_, fun k name b names hk => ?_,
    fun k b hb => ?_⟩
  · by_cases hconn : connOf e = some k
    · exact hlive k id hconn hk
    · exact hold (h.live k id ((congrArg sessionOf (hmoves.others k hconn)).symm.trans hk))
  · rcases List.mem_append.1 hp with hp | hp
    · exact hlate p hp
    · exact not_early_of_session (hnew p (Option.mem_toList.1 hp)).2.2.1
  · cases new with
    | none => simpa using h.ids
    | some p =>
      rw [List.map_append, List.nodup_append]
      refine ⟨h.ids, List.nodup_singleton _, fun i hi j hj => ?_⟩
      obtain ⟨q, hq, rfl⟩ := List.mem_map.1 hi
      obtain rfl := List.mem_singleton.1 hj
      exact (hnew p rfl).2.2.2.1 q hq
  · cases new with
    | none => simpa using h.conns
    | some p =>
      rw [List.map_append, List.nodup_append]
      refine ⟨h.conns, List.nodup_singleton _, fun i hi j hj hij => ?_⟩
      obtain ⟨q, hq, rfl⟩ := List.mem_map.1 hi
      obtain rfl := List.mem_singleton.1 hj
      exact h.late q hq (hij ▸ (hnew p rfl).2.1)
  · rcases hmoves.logged x hx with hx | ⟨-, hsession⟩
    · exact hold (h.logged x hx id hid)
    · exact hold (h.live x.conn id (hsession id hid))
  · refine ⟨?_, (h.answered a ha).2⟩
    obtain ⟨p, hp, hraw⟩ := List.mem_map.1 (h.answered a ha).1
    exact List.mem_map.2 ⟨p, hmoves.taken p hp, hraw⟩
  · have hb := ho p.2 b hb
    rcases List.mem_append.1 hp with hp | hp
    · exact h.held p hp b hb
    · -- nothing is there for a session that has just been opened
      obtain ⟨-, hdirs, hjobs⟩ := (hnew p (Option.mem_toList.1 hp)).2.2.2
      rcases hb with ⟨q, hq, hid, -⟩ | ⟨f, hf, -⟩
      · exact absurd hid (hjobs q hq)
      · simp [hdirs, entries, files, tmpFiles] at hf
  · obtain ⟨id, hid, hfor⟩ := h.reading k name b names (hpump k name b names hk)
    exact ⟨id, hold hid, hfor⟩
  · obtain ⟨id, hid, hfor⟩ := h.sent k b hb
    exact ⟨id, hold hid, hfor⟩

/-- A step on the outbox that is no reply brings nothing new. -/
theorem holds_of_step {e : OutboxEvent} (h : outboxStep o e = some o')
    (he : ∀ id requestId b, e ≠ .reply id requestId b) (id : SessionId) (b : Bytes) :
    Holds o' id b → Holds o id b := fun hb =>
  (holds_step h hb).resolve_right fun ⟨_, hreply⟩ => he _ _ _ hreply

theorem inv_tot (h : Inv c inbox s) {e : Tot.Server.Event} (hfresh : Fresh s (.tot e))
    (hstep : step c s (.tot e) = some s') : Inv c inbox s' := by
  obtain ⟨t, ht, hstep⟩ := Option.bind_eq_some_iff.1 hstep
  have hmoves := moves_step ht
  cases hconn : connOf e with
  | none =>
    simp only [hconn] at hstep
    obtain rfl := Option.some.inj hstep
    simpa using h.moves ht (fun _ _ => id) (fun _ _ _ _ => id) none
      (fun p hp => nomatch hp) fun k id hk => by simp [hconn] at hk
  | some k =>
    simp only [hconn] at hstep
    split_ifs at hstep
    unfold State.follow at hstep
    split at hstep
    · -- a session opens, at the handshake
      rename_i id hbefore hafter
      obtain ⟨o, ho, rfl⟩ := Option.map_eq_some_iff.1 hstep
      obtain ⟨hearly, path, random, now, dir, hlength, rfl, rfl⟩ :=
        (hmoves.session k id hconn hafter).resolve_left fun hid => by
          rw [State.session, hid] at hbefore
          cases hbefore
      refine h.moves ht (holds_of_step ho (by simp)) (fun _ _ _ _ => id) (some _)
        (fun p hp => ?_) fun k' id' hk' hid' => ?_
      · obtain rfl := Option.some.inj hp
        exact ⟨hconn, hearly, hafter, hfresh hlength⟩
      · obtain rfl := Option.some.inj (hconn.symm.trans hk')
        obtain rfl := Option.some.inj (hafter.symm.trans hid')
        simp
    · -- a session ends
      rename_i id hbefore hafter
      obtain ⟨o, ho, rfl⟩ := Option.map_eq_some_iff.1 hstep
      have hpump : ∀ j name b names, Function.update s.pump k Pump.idle j = .read name b names →
          s.pump j = .read name b names := fun j name b names hj => by
        by_cases hjk : j = k
        · subst hjk
          simp at hj
        · rwa [Function.update_of_ne hjk] at hj
      simpa using h.moves ht (holds_of_step ho (by simp)) hpump none
        (fun p hp => nomatch hp) fun k' id' hk' hid' => by
          obtain rfl := Option.some.inj (hconn.symm.trans hk')
          rw [hafter] at hid'
          cases hid'
    · rename_i hopens hends
      obtain rfl := Option.some.inj hstep
      simpa using h.moves ht (fun _ _ => id) (fun _ _ _ _ => id) none
        (fun p hp => nomatch hp) fun k' id' hk' hid' => by
          obtain rfl := Option.some.inj (hconn.symm.trans hk')
          cases hbefore : s.session k with
          | none => exact absurd hid' (hopens id' hbefore)
          | some id =>
            rcases hmoves.session k id' hconn hid' with hsame | ⟨hearly, -⟩
            · simpa using h.live k id' hsame
            · exact absurd hearly (not_early_of_session hbefore)

/-! ## What ANTIE does -/

theorem map_lower_hex (id : SessionId) : id.hex.map lower = id.hex := by
  have hlower : ∀ x : UInt8, Tot.isHex x → lower x = x := fun x hx => by
    have all : ∀ m : BitVec 8, Tot.isHex (UInt8.ofBitVec m) →
        lower (UInt8.ofBitVec m) = UInt8.ofBitVec m := by decide
    exact all x.toBitVec hx
  exact List.map_congr_left (fun x hx => hlower x (id.isHex_hex x hx)) |>.trans (List.map_id _)

theorem trim_hex (id : SessionId) : Text.trim id.hex = id.hex :=
  Text.trim_of_forall fun x hx =>
    ⟨UInt8.lt_of_le_of_lt (Tot.isHex_bounds (id.isHex_hex x hx)).2 (by decide),
      Tot.not_isWs_of_isHex (id.isHex_hex x hx)⟩

/-- The custody header of a mail with one stamp names the session of the stamp. -/
theorem custody_of_stamp {m : Mail} {id : SessionId} {r header found : Bytes}
    (hr : m.headerRaw (ascii "X-TOT-Session") = some r) (htrim : Text.trim r = Text.trim id.hex)
    (h : custody m = some (header, found)) : found = id.hex := by
  obtain ⟨name, hname, h⟩ := List.exists_of_findSome?_eq_some h
  obtain rfl := List.mem_singleton.1 hname
  obtain ⟨id', hid', h⟩ := Option.map_eq_some_iff.1 h
  obtain ⟨-, rfl⟩ := Prod.mk.inj h
  simp only [hr, Option.bind_some, headerId, htrim, trim_hex] at hid'
  split_ifs at hid'
  obtain rfl := Option.some.inj hid'
  exact map_lower_hex id

/-- The reply is one of the two that ANTIE makes. -/
theorem Handling.replies {how : Handling} {raw : Bytes} {email : Email} {payload : ResponsePayload}
    (h : how.reply raw = some (email, payload)) :
    ∃ limiter, Replies how.outside limiter raw email payload := by
  cases how with
  | processed w limiter =>
    simp only [Handling.reply] at h
    split_ifs at h with hskip
    split at h
    · rename_i parsed hparse
      split_ifs at h with hband
      obtain ⟨rfl, rfl⟩ := Prod.mk.inj (Option.some.inj h)
      rw [not_or] at hskip
      exact ⟨limiter, .processed hskip.1 hskip.2 hparse hband⟩
    · cases h
  | busy w decode avgMs =>
    simp only [Handling.reply] at h
    split at h
    · rename_i parsed hparse
      obtain ⟨rfl, rfl⟩ := Prod.mk.inj (Option.some.inj h)
      exact ⟨[], .busy decode avgMs hparse⟩
    · cases h

/-- The session that a reply goes to is the one in the custody header. -/
theorem target_custody {w : Outside} {email : Email} {id : SessionId}
    (h : target c w email = some id) : ∃ header, email.custody = some (header, id.hex) := by
  obtain ⟨⟨header, found⟩, hcustody, h⟩ := Option.bind_eq_some_iff.1 h
  split_ifs at h
  obtain ⟨row, -, h⟩ := Option.bind_eq_some_iff.1 h
  split_ifs at h
  obtain rfl := Option.some.inj h
  exact ⟨header, hcustody⟩

/-- The reply that ANTIE makes to a mail with one stamp is for the session of the stamp. -/
theorem reply_fits {how : Handling} {raw : Bytes} {email : Email} {payload : ResponsePayload}
    (hreads : ∀ raw m v, how.outside.parser raw = some m → stampValues raw = [v] →
      ∃ r, m.headerRaw (ascii "X-TOT-Session") = some r ∧ Text.trim r = Text.trim v)
    (h : how.reply raw = some (email, payload)) (reply : Bytes) :
    Answer.Fits ⟨raw, target c how.outside email, reply⟩ := by
  intro id hid id' hstamp
  obtain ⟨m, hm, hcustody⟩ : ∃ m, how.outside.parser raw = some m ∧ email.custody = custody m := by
    obtain ⟨limiter, hreplies⟩ := Handling.replies h
    cases hreplies with
    | processed size vbc parse band => exact SessionFiles.parseEmailOutcome_custody parse
    | busy decode avgMs parse => exact SessionFiles.parseEmailOutcome_custody parse
  obtain ⟨header, hheader⟩ := target_custody hid
  obtain ⟨r, hr, htrim⟩ := hreads raw m id'.hex hm hstamp
  have hhex := custody_of_stamp hr htrim (hcustody.symm.trans hheader)
  cases id
  cases id'
  simpa using hhex.symm

theorem inv_answer (h : Inv c inbox s) {name : Bytes} {how : Handling} {stamp : Outgoing.Stamp}
    {encoded : Bytes} (hreads : (Event.answer name how stamp encoded).Reads)
    (hstep : step c s (.answer name how stamp encoded) = some s') : Inv c inbox s' := by
  obtain ⟨raw, hraw, hstep⟩ := Option.bind_eq_some_iff.1 hstep
  obtain ⟨⟨email, payload⟩, hreply, hstep⟩ := Option.bind_eq_some_iff.1 hstep
  dsimp only at hstep
  split at hstep
  · obtain rfl := Option.some.inj hstep
    exact h
  · rename_i reply hbuild
    have hfits := reply_fits (c := c) hreads hreply reply
    have htaken : raw ∈ s.tot.taken.map Prod.snd := List.mem_map.2 ⟨_, Table.mem_of_get hraw, rfl⟩
    -- what holds of the answers so far, and what the new one may bring
    have hgrow {o : Outbox} {new : Answer} (hnew : new.raw ∈ s.tot.taken.map Prod.snd ∧ new.Fits)
        (ho : ∀ id b, Holds o id b → Holds s.outbox id b ∨ new.session = some id ∧ new.reply = b) :
        Inv c inbox { s with outbox := o, answers := s.answers ++ [new] } := by
      have hfor : ∀ {id b}, s.For id b →
          State.For { s with outbox := o, answers := s.answers ++ [new] } id b :=
        fun ⟨a, ha, hid⟩ => ⟨a, List.mem_append_left _ ha, hid⟩
      refine ⟨h.server, h.live, h.late, h.ids, h.conns, h.logged, fun a ha => ?_, fun p hp b hb => ?_,
        fun k name b names hk => ?_, fun k b hb => ?_⟩
      · rcases List.mem_append.1 ha with ha | ha
        · exact h.answered a ha
        · obtain rfl := List.mem_singleton.1 ha
          exact hnew
      · rcases ho p.2 b hb with hb | hb
        · exact hfor (h.held p hp b hb)
        · exact ⟨new, List.mem_append_right _ (List.mem_singleton.2 rfl), hb⟩
      · obtain ⟨id, hid, hb⟩ := h.reading k name b names hk
        exact ⟨id, hid, hfor hb⟩
      · obtain ⟨id, hid, hb⟩ := h.sent k b hb
        exact ⟨id, hid, hfor hb⟩
    split at hstep
    · obtain rfl := Option.some.inj hstep
      exact hgrow ⟨htaken, hfits⟩ fun _ _ => .inl
    · rename_i id hid
      obtain ⟨o, ho, rfl⟩ := Option.map_eq_some_iff.1 hstep
      refine hgrow ⟨htaken, hfits⟩ fun id' b hb => (holds_step ho hb).imp_right ?_
      rintro ⟨requestId, hreply⟩
      obtain ⟨rfl, -, rfl⟩ := OutboxEvent.reply.inj hreply
      exact ⟨hid, rfl⟩

/-- A step that leaves TOT's server, the sessions and the answers alone. -/
theorem Inv.pumped (h : Inv c inbox s) {o : Outbox} (ho : ∀ id b, Holds o id b → Holds s.outbox id b)
    {pump : ℕ → Pump} {sent : ℕ → List Bytes}
    (hpump : ∀ k name b names, pump k = .read name b names →
      s.pump k = .read name b names ∨ ∃ id, s.session k = some id ∧ Holds s.outbox id b)
    (hsent : ∀ k, ∀ b ∈ sent k, b ∈ s.sent k ∨ ∃ name names, s.pump k = .read name b names) :
    Inv c inbox { s with outbox := o, pump, sent } where
  server := h.server
  live := h.live
  late := h.late
  ids := h.ids
  conns := h.conns
  logged := h.logged
  answered := h.answered
  held p hp b hb := h.held p hp b (ho p.2 b hb)
  reading k name b names hk := by
    rcases hpump k name b names hk with hk | ⟨id, hid, hb⟩
    · exact h.reading k name b names hk
    · exact ⟨id, h.live k id hid, h.held (k, id) (h.live k id hid) b hb⟩
  sent k b hb := by
    rcases hsent k b hb with hb | ⟨name, names, hk⟩
    · exact h.sent k b hb
    · exact h.reading k name b names hk

theorem update_pump {k : ℕ} {p : Pump} (hp : ∀ name b names, p ≠ .read name b names) (j : ℕ)
    (name b : Bytes) (names : List Bytes)
    (h : Function.update s.pump k p j = .read name b names) : s.pump j = .read name b names := by
  by_cases hj : j = k
  · subst hj
    rw [Function.update_self] at h
    exact absurd h (hp name b names)
  · rwa [Function.update_of_ne hj] at h

theorem inv_step {e : Event} (h : Inv c inbox s)
    (hC : Fresh s e ∧ e.Reads) (hstep : step c s e = some s') : Inv c inbox s' := by
  cases e with
  | tot e => exact inv_tot h hC.1 hstep
  | answer name how stamp encoded => exact inv_answer h hC.2 hstep
  | deposit j =>
    obtain ⟨o, ho, rfl⟩ := Option.map_eq_some_iff.1 hstep
    exact h.pumped (holds_of_step ho (by simp)) (fun _ _ _ _ => .inl) (fun _ _ => .inl)
  | cleanup id =>
    obtain ⟨o, ho, rfl⟩ := Option.map_eq_some_iff.1 hstep
    exact h.pumped (holds_of_step ho (by simp)) (fun _ _ _ _ => .inl) (fun _ _ => .inl)
  | list k =>
    simp only [step] at hstep
    split at hstep
    · obtain rfl := Option.some.inj hstep
      exact h.pumped (fun _ _ => id)
        (fun j name b names hj => .inl (update_pump (by simp) j name b names hj)) (fun _ _ => .inl)
    · cases hstep
  | read k =>
    simp only [step] at hstep
    split at hstep
    · obtain rfl := Option.some.inj hstep
      exact h.pumped (fun _ _ => id)
        (fun j name b names hj => .inl (update_pump (by simp) j name b names hj)) (fun _ _ => .inl)
    · rename_i name names id hk hid
      obtain ⟨bytes, hget, rfl⟩ := Option.map_eq_some_iff.1 hstep
      refine h.pumped (fun _ _ => fun h => h) (fun j name' b names' hj => ?_) (fun _ _ => .inl)
      by_cases hjk : j = k
      · subst hjk
        rw [Function.update_self] at hj
        obtain ⟨rfl, rfl, rfl⟩ := Pump.read.inj hj
        exact .inr ⟨id, hid, holds_entry (List.mem_append_right _ (Table.mem_of_get hget))⟩
      · rw [Function.update_of_ne hjk] at hj
        exact .inl hj
    · cases hstep
  | send k =>
    simp only [step] at hstep
    split at hstep
    · rename_i name bytes names hk
      obtain rfl := Option.some.inj hstep
      refine h.pumped (fun _ _ => id)
        (fun j name b names hj => .inl (update_pump (by simp) j name b names hj))
        (fun j b hb => ?_)
      by_cases hjk : j = k
      · subst hjk
        rw [Function.update_self] at hb
        rcases List.mem_append.1 hb with hb | hb
        · exact .inl hb
        · obtain rfl := List.mem_singleton.1 hb
          exact .inr ⟨name, names, hk⟩
      · rw [Function.update_of_ne hjk] at hb
        exact .inl hb
    · cases hstep
  | remove k =>
    simp only [step] at hstep
    split at hstep
    · obtain ⟨o, ho, rfl⟩ := Option.map_eq_some_iff.1 hstep
      exact h.pumped (holds_of_step ho (by simp))
        (fun j name b names hj => .inl (update_pump (by simp) j name b names hj)) (fun _ _ => .inl)
    · cases hstep

/-! ## Isolation -/

/-- How the mail has come that a reply in the session answers. -/
inductive Came (inbox : Tot.Inbox) (s : State) (k : ℕ) (id : SessionId) (raw : Bytes) : Prop
  /-- Over the session itself. -/
  | own (x : Tot.Server.Entry) (logged : x ∈ s.tot.admitted k) (origin : x.origin = .session id)
      (bytes : x.bytes = raw)
  /-- To TOT, but not over a session. -/
  | plain (x : Tot.Server.Entry) (logged : x ∈ s.tot.log) (origin : ∀ i, x.origin ≠ .session i)
      (bytes : x.bytes = raw)
  /-- It was there before TOT. -/
  | found (p : Bytes × Bytes) (there : p ∈ inbox.new) (bytes : p.2 = raw)
  /-- Over another session, with more in it that reads as the stamp than the stamp of TOT. -/
  | forged (x : Tot.Server.Entry) (i : SessionId) (logged : x ∈ s.tot.log)
      (origin : x.origin = .session i) (other : i ≠ id) (bytes : x.bytes = raw)
      (stamps : stampValues raw ≠ [i.hex])

/-- Whatever the clients send, however the connections, ANTIE's replies and deposits, and the pumps
interleave, and wherever they fail: all that is sent to a client over a session are replies that
were deposited for the session, and none of them answers a mail of another session, unless that mail
got a second stamp past TOT. -/
theorem session_isolated (hkeys : (Table.keys inbox.new).Nodup)
    {dirs : SessionId → Option (Dir Bytes)} {jobs : List (SessionId × Job Bytes)} {es : List Event}
    (hfresh : Along (step c) Fresh (start c inbox dirs jobs) es) (hreads : ∀ e ∈ es, e.Reads)
    (hr : run (step c) (start c inbox dirs jobs) es = some s) {k : ℕ} {id : SessionId}
    (hopened : (k, id) ∈ s.opened) {b : Bytes} (hb : b ∈ s.sent k) :
    ∃ a ∈ s.answers, a.reply = b ∧ a.session = some id ∧ Came inbox s k id a.raw := by
  have hC : Along (step c) (fun s e => Fresh s e ∧ e.Reads) (start c inbox dirs jobs) es :=
    along_iff.2 fun before e after u hsplit hu =>
      ⟨along_iff.1 hfresh before e after u hsplit hu, hreads e (by simp [hsplit])⟩
  have h : Inv c inbox s :=
    run_invariant (fun _ _ _ hs hC => inv_step hs hC) (inv_start hkeys dirs jobs) hC hr
  obtain ⟨id', hid', a, ha, hsession, hreply⟩ := h.sent k b hb
  have hone : ∀ {i}, (k, i) ∈ s.opened → i = id := fun hi =>
    congrArg Prod.snd (List.inj_on_of_nodup_map h.conns hi hopened rfl)
  obtain rfl := hone hid'
  obtain ⟨htaken, hfits⟩ := h.answered a ha
  refine ⟨a, ha, hreply, hsession, ?_⟩
  obtain ⟨p, hp, hraw⟩ := List.mem_map.1 htaken
  rcases h.server.files.known p (List.mem_append_right _ hp) with hfound | ⟨y, hy, rfl⟩
  · exact .found p hfound hraw
  · obtain ⟨name, x⟩ := y
    have hlog : x ∈ s.tot.log := h.server.files.logged _ (h.server.files.issued _ hy)
    by_cases hplain : ∀ i, x.origin ≠ .session i
    · exact .plain x hlog hplain hraw
    · obtain ⟨i, hi⟩ := not_forall_not.1 hplain
      by_cases hown : i = id'
      · subst hown
        have hconn := List.inj_on_of_nodup_map h.ids (h.logged x hlog i hi) hopened rfl
        exact .own x (List.mem_filter.2 ⟨hlog, by simp [(Prod.mk.inj hconn).1]⟩) hi hraw
      · exact .forged x i hlog hi hown hraw fun hstamp => hown (hfits id' hsession i hstamp)

def sampleSetup : Setup := ⟨Tot.Server.sampleSetup, [], [ascii "out"]⟩

/-- A message of a client in its session. -/
def sampleMessage : Bytes := ascii "From: a@b\r\nSubject: AXIOM/validator_status/7\r\n\r\n"

def sampleEvents : List Event :=
  [.tot (.accept 0), .tot (.head 0 (ascii "GET ")),
    .tot (.upgraded 0 (ascii "/session") (List.replicate 32 0) 5 true),
    .tot (.message 0 (.binary sampleMessage) 6), .tot (.draw 0 9 1), .tot (.io 0 .ok),
    .tot (.io 0 (.wrote (Tot.stampLine Tot.zeroId ++ sampleMessage).length)), .tot (.io 0 .ok),
    .tot (.io 0 .ok), .tot (.take (Tot.Server.uniqueName 9 1 0 7)), .tot (.io 0 .ok),
    .answer (Tot.Server.uniqueName 9 1 0 7) (.processed sampleGateway []) ⟨[], [], [], []⟩ [],
    .deposit 0, .deposit 0, .deposit 0, .list 0, .read 0, .send 0]

theorem reads_sample : ∀ e ∈ sampleEvents, e.Reads := by
  have hplain : ∀ raw m v, plainParser raw = some m → stampValues raw = [v] →
      ∃ r, m.headerRaw (ascii "X-TOT-Session") = some r ∧ Text.trim r = Text.trim v := by
    intro raw m v hm hv
    obtain rfl := Option.some.inj hm
    refine ⟨v, ?_, rfl⟩
    have hname : (ascii "X-TOT-Session").map lower = Tot.stampName := by decide +kernel
    rw [stampValues] at hv
    change plainHeader raw (ascii "X-TOT-Session") = some v
    rw [plainHeader, hname, ← List.head?_filter, ← List.head?_map, hv, List.head?_cons]
  simp only [sampleEvents, List.forall_mem_cons]
  exact ⟨trivial, trivial, trivial, trivial, trivial, trivial, trivial, trivial, trivial, trivial,
    trivial, hplain, trivial, trivial, trivial, trivial, trivial, trivial, by simp⟩

theorem session_isolated_reply : ∃ s b a,
    run (step sampleSetup) (start sampleSetup ⟨[], []⟩ (fun _ => none) []) sampleEvents = some s ∧
      s.sent 0 = [b] ∧ a ∈ s.answers ∧ a.reply = b ∧ Came ⟨[], []⟩ s 0 Tot.zeroId a.raw := by
  have hrun : (run (step sampleSetup) (start sampleSetup ⟨[], []⟩ (fun _ => none) [])
      sampleEvents).map (fun s => (s.opened, (s.sent 0).length)) = some ([(0, Tot.zeroId)], 1) := by
    decide +kernel
  obtain ⟨s, hs, hstate⟩ := Option.map_eq_some_iff.1 hrun
  obtain ⟨hopened, hsent⟩ := Prod.mk.inj hstate
  obtain ⟨b, hb⟩ := List.length_eq_one_iff.1 hsent
  have hfresh : Along (step sampleSetup) Fresh (start sampleSetup ⟨[], []⟩ (fun _ => none) [])
      sampleEvents := by decide +kernel
  obtain ⟨a, ha, hreply, -, hcame⟩ := session_isolated Tot.Server.keys_empty hfresh
    reads_sample hs (hopened ▸ List.mem_singleton.2 rfl) (hb ▸ List.mem_singleton.2 rfl)
  exact ⟨s, b, a, hs, hb, ha, hreply, hcame⟩

end Seam.Sessions
