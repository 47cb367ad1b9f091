import AxiomCarriers.Fatmama.CrossSite

/-!
# The dialogue with another site

`cross_site_deliver` read by read: what the other server sends arrives in any chunks, the server may
close the connection at any time, and any wait of the client may end with an exception, a timeout
among them.  The log holds the lines that `readline` has returned and the bytes the client has
written, in their order.

Nothing but EHLO is written before the server has greeted with 220 and has named the capability
(`crossSite_gate`).  The client reads one line for every command, but against a server that answers
every command with one reply this never makes a refusal look like an acceptance
(`crossSite_genuine`): the 354 shows that the client has caught up with the replies.
-/

namespace Fatmama.Dial

open Bytes Runs

/-! ## The client -/

def fatmamaPort : ℕ := 2525

def forbiddenSmtpPorts : List ℕ := [25, 465, 587]

/-- What the client is called with, and the name of its own host. -/
structure Client where
  hostname : Bytes
  sender : Bytes
  rcpt : Bytes
  raw : Bytes

def Client.ehlo (c : Client) : Bytes := ascii "EHLO " ++ c.hostname ++ crlf

def Client.mailFrom (c : Client) : Bytes := ascii "MAIL FROM:<" ++ c.sender ++ ascii ">\r\n"

def Client.rcptTo (c : Client) : Bytes := ascii "RCPT TO:<" ++ c.rcpt ++ ascii ">\r\n"

/-- What the client waits for. -/
inductive Phase
  | dialing
  | greeting
  /-- The next line of the answer to EHLO, after which it reads at most `more` others; `saw` says
  that the capability has been named. -/
  | ehlo (more : ℕ) (saw : Bool)
  | mail
  | rcpt
  | data
  /-- The answer to the end of the message. -/
  | message
  | done (ok : Bool)
  deriving DecidableEq

inductive Io
  /-- `readline` has returned the line; it is empty when the server has closed. -/
  | line (l : Bytes)
  | wrote (b : Bytes)
  deriving DecidableEq

structure State where
  phase : Phase
  inbox : Bytes
  closed : Bool
  /-- All that the server has sent. -/
  sent : Bytes
  log : List Io
  deriving DecidableEq

def start : State :=
  ⟨if fatmamaPort ∈ forbiddenSmtpPorts then .done false else .dialing, [], false, [], []⟩

/-- What `readline` does with what has arrived. -/
inductive Read
  | line (l rest : Bytes)
  | tooLong
  | wait

/-- `readline`: at the end of the stream it returns the line as far as it has come. -/
def nextLine (inbox : Bytes) (closed : Bool) : Read :=
  match cut [LF] inbox with
  | some (l, rest) => if l.length ≤ replyLimit then .line (l ++ [LF]) rest else .tooLong
  | none =>
    if replyLimit < inbox.length then .tooLong else if closed then .line inbox [] else .wait

/-- The line names the capability. -/
def Names (l : Bytes) : Prop := ascii "XAXIOM-FATMAMA" <:+: l.map upperAscii

instance (l : Bytes) : Decidable (Names l) := inferInstanceAs (Decidable (_ <:+: _))

/-- The end of `handshake_ok`. -/
def shaken (c : Client) (saw : Bool) : Phase × List Io :=
  if saw then (.mail, [.wrote c.mailFrom]) else (.done false, [])

/-- What the client does with the line it was waiting for. -/
def advance (c : Client) (l : Bytes) : Phase → Phase × List Io
  | .greeting =>
    if ascii "220" <+: l then (.ehlo 19 false, [.wrote c.ehlo]) else (.done false, [])
  | .ehlo more saw =>
    if l = [] then shaken c saw
    else
      let saw := saw || decide (Names l)
      match more with
      | 0 => shaken c saw
      | more + 1 => if (l.drop 3).head? = some 45 then (.ehlo more saw, []) else shaken c saw
  | .mail => if ascii "250" <+: l then (.rcpt, [.wrote c.rcptTo]) else (.done false, [])
  | .rcpt => if ascii "250" <+: l then (.data, [.wrote (ascii "DATA\r\n")]) else (.done false, [])
  | .data =>
    if ascii "354" <+: l then (.message, [.wrote (crossSiteText c.raw)]) else (.done false, [])
  | .message => (.done (ascii "250" <+: l), [.wrote (ascii "QUIT\r\n")])
  | .dialing => (.dialing, [])
  | .done ok => (.done ok, [])

inductive Event
  | connects
  | peerSends (chunk : Bytes)
  | peerCloses
  /-- The pending `readline` returns, and the client goes on to the next one. -/
  | reads
  /-- The pending call raises an exception: no connection, a timeout, a connection that is lost. -/
  | fails
  deriving DecidableEq

def step (c : Client) (s : State) : Event → Option State
  | .connects => if s.phase = .dialing then some { s with phase := .greeting } else none
  | .peerSends chunk =>
    if s.phase ≠ .dialing ∧ s.closed = false then
      some { s with inbox := s.inbox ++ chunk, sent := s.sent ++ chunk }
    else none
  | .peerCloses => if s.phase ≠ .dialing then some { s with closed := true } else none
  | .reads =>
    match s.phase with
    | .dialing | .done _ => none
    | _ =>
      match nextLine s.inbox s.closed with
      | .line l rest =>
        let (phase, io) := advance c l s.phase
        some { s with phase, inbox := rest, log := s.log ++ .line l :: io }
      | .tooLong => some { s with phase := .done false, inbox := [] }
      | .wait => none
  | .fails =>
    match s.phase with
    | .done _ => none
    | _ => some { s with phase := .done false }

/-! ## The gate -/

def received (log : List Io) : List Bytes := log.filterMap fun
  | .line l => some l
  | .wrote _ => none

def written (log : List Io) : List Bytes := log.filterMap fun
  | .line _ => none
  | .wrote b => some b

@[simp] theorem received_append (log more : List Io) :
    received (log ++ more) = received log ++ received more := List.filterMap_append

@[simp] theorem received_line (l : Bytes) (log : List Io) :
    received (.line l :: log) = l :: received log := rfl

@[simp] theorem received_wrote (b : Bytes) (log : List Io) :
    received (.wrote b :: log) = received log := rfl

/-- The first line received began with 220, and a line received after EHLO was written names the
capability. -/
def Opened (c : Client) (log : List Io) : Prop :=
  (∃ greet ∈ (received log).head?, ascii "220" <+: greet) ∧
    ∃ before after l, log = before ++ .wrote c.ehlo :: after ∧ .line l ∈ after ∧ Names l

/-- What the client has read and written when it comes to a phase. -/
def Gate (c : Client) (log : List Io) : Phase → Prop
  | .dialing | .greeting => log = []
  | .ehlo _ saw => ∃ (greet : Bytes) (ls : List Bytes), log = .line greet :: .wrote c.ehlo :: ls.map .line ∧
      ascii "220" <+: greet ∧ (saw → ∃ l ∈ ls, Names l)
  | .mail | .rcpt | .data | .message => Opened c log
  | .done ok => Opened c log ∨ written log <+: [c.ehlo] ∧ ok = false

theorem Opened.append {c : Client} {log : List Io} (h : Opened c log) (more : List Io) :
    Opened c (log ++ more) := by
  obtain ⟨⟨greet, hgreet, h220⟩, before, after, l, rfl, hl, hnames⟩ := h
  refine ⟨⟨greet, ?_, h220⟩, before, after ++ more, l, by simp, List.mem_append_left _ hl, hnames⟩
  rw [Option.mem_def] at hgreet ⊢
  rw [received_append, List.head?_append, hgreet]
  rfl

/-- The end of the handshake keeps the gate. -/
theorem shaken_gate {c : Client} {log : List Io} {saw : Bool} (hsaw : saw → Opened c log)
    (hwritten : written log = [c.ehlo]) : Gate c (log ++ (shaken c saw).2) (shaken c saw).1 := by
  cases saw with
  | true => exact (hsaw rfl).append _
  | false =>
    right
    simp [shaken, hwritten]

theorem advance_gate {c : Client} {log : List Io} {phase : Phase} (l : Bytes)
    (hlive : phase ≠ .dialing ∧ ∀ ok, phase ≠ .done ok) (h : Gate c log phase) :
    Gate c (log ++ .line l :: (advance c l phase).2) (advance c l phase).1 := by
  cases phase with
  | dialing => exact absurd rfl hlive.1
  | greeting =>
    obtain rfl : log = [] := h
    simp only [advance]
    split
    next h220 => exact ⟨l, [], rfl, h220, by simp⟩
    · exact Or.inr ⟨by simp [written], rfl⟩
  | ehlo more saw =>
    obtain ⟨greet, ls, rfl, h220, hsaw⟩ := h
    have hopen : ∀ ls' : List Bytes, (∃ l ∈ ls', Names l) →
        Opened c (.line greet :: .wrote c.ehlo :: ls'.map .line) := by
      rintro ls' ⟨l', hl', hnames⟩
      exact ⟨⟨greet, rfl, h220⟩, [.line greet], _, l', rfl, List.mem_map_of_mem hl', hnames⟩
    have hwritten : ∀ ls' : List Bytes,
        written (.line greet :: .wrote c.ehlo :: ls'.map .line) = [c.ehlo] := by
      intro ls'
      simp [written, List.filterMap_map]
    have hlog : ∀ io : List Io, (.line greet :: .wrote c.ehlo :: ls.map .line) ++ .line l :: io =
        (.line greet :: .wrote c.ehlo :: (ls ++ [l]).map .line) ++ io := by simp
    have hsaw' : (saw || decide (Names l)) → ∃ l' ∈ ls ++ [l], Names l' := by
      intro h
      rcases Bool.or_eq_true_iff.1 h with h | h
      · obtain ⟨l', hl', hnames⟩ := hsaw h
        exact ⟨l', List.mem_append_left _ hl', hnames⟩
      · exact ⟨l, by simp, by simpa using h⟩
    rw [hlog]
    simp only [advance]
    split
    · refine shaken_gate (fun h => hopen _ ?_) (hwritten _)
      obtain ⟨l', hl', hnames⟩ := hsaw h
      exact ⟨l', List.mem_append_left _ hl', hnames⟩
    · cases more with
      | zero => exact shaken_gate (fun h => hopen _ (hsaw' h)) (hwritten _)
      | succ more =>
        simp only
        split
        · rw [List.append_nil]
          exact ⟨greet, ls ++ [l], rfl, h220, hsaw'⟩
        · exact shaken_gate (fun h => hopen _ (hsaw' h)) (hwritten _)
  | mail | rcpt | data =>
    have h : Opened c log := h
    simp only [advance]
    split
    · exact h.append _
    · exact Or.inl (h.append _)
  | message => exact Or.inl (Opened.append h _)
  | done ok => exact absurd rfl (hlive.2 ok)

/-- A failure leaves the log as it is: nothing has been written that the gate forbids. -/
theorem gate_fails {c : Client} {log : List Io} {phase : Phase} (h : Gate c log phase)
    (hdone : ∀ ok, phase ≠ .done ok) : Gate c log (.done false) := by
  cases phase with
  | dialing | greeting =>
    obtain rfl : log = [] := h
    exact Or.inr ⟨by simp [written], rfl⟩
  | ehlo more saw =>
    obtain ⟨greet, ls, rfl, -, -⟩ := h
    exact Or.inr ⟨by simp [written, List.filterMap_map], rfl⟩
  | mail | rcpt | data | message => exact Or.inl h
  | done ok => exact absurd rfl (hdone ok)

/-- What `reads` does: a line comes, or the line is too long. -/
theorem reads_cases {c : Client} {s s' : State} (h : step c s .reads = some s') :
    (s.phase ≠ .dialing ∧ ∀ ok, s.phase ≠ .done ok) ∧
      ((∃ l rest, nextLine s.inbox s.closed = .line l rest ∧
        s' = { s with
          phase := (advance c l s.phase).1, inbox := rest
          log := s.log ++ .line l :: (advance c l s.phase).2 }) ∨
      s' = { s with phase := .done false, inbox := [] }) := by
  have hlive : s.phase ≠ .dialing ∧ ∀ ok, s.phase ≠ .done ok := by
    constructor
    · intro hp
      simp [step, hp] at h
    · intro ok hp
      simp [step, hp] at h
  refine ⟨hlive, ?_⟩
  simp only [step] at h
  split at h
  next hp => exact absurd hp hlive.1
  next ok hp => exact absurd hp (hlive.2 ok)
  · split at h
    next l rest hl => exact Or.inl ⟨l, rest, hl, (Option.some.inj h).symm⟩
    · exact Or.inr (Option.some.inj h).symm
    · cases h

theorem step_gate {c : Client} (s : State) (e : Event) (s' : State) (hs : Gate c s.log s.phase)
    (h : step c s e = some s') : Gate c s'.log s'.phase := by
  cases e with
  | connects =>
    obtain ⟨hp, rfl⟩ := by simpa [step] using h
    rw [hp] at hs
    exact hs
  | peerSends chunk =>
    obtain ⟨-, rfl⟩ := by simpa [step] using h
    exact hs
  | peerCloses =>
    obtain ⟨-, rfl⟩ := by simpa [step] using h
    exact hs
  | reads =>
    obtain ⟨hlive, ⟨l, rest, -, rfl⟩ | rfl⟩ := reads_cases h
    · exact advance_gate l hlive hs
    · exact gate_fails hs hlive.2
  | fails =>
    simp only [step] at h
    split at h
    · cases h
    next hdone =>
      obtain rfl := Option.some.inj h
      exact gate_fails hs hdone

theorem gate_run {c : Client} {es : List Event} {s : State} (h : run (step c) start es = some s) :
    Gate c s.log s.phase := by
  refine run_preserves (I := fun s => Gate c s.log s.phase) step_gate ?_ h
  show start.log = []
  rfl

/-- Whatever the server does, either it has greeted with 220 and named the capability after EHLO, or
at most the EHLO line has been written and the result is not true. -/
theorem crossSite_gate {c : Client} {es : List Event} {s : State}
    (h : run (step c) start es = some s) :
    Opened c s.log ∨ (written s.log <+: [c.ehlo] ∧ s.phase ≠ .done true) := by
  have hgate := gate_run h
  cases hp : s.phase with
  | dialing | greeting =>
    rw [hp] at hgate
    have hlog : s.log = [] := hgate
    exact Or.inr ⟨by simp [hlog, written], by simp⟩
  | ehlo more saw =>
    rw [hp] at hgate
    obtain ⟨greet, ls, hlog, -, -⟩ := hgate
    exact Or.inr ⟨by simp [hlog, written, List.filterMap_map], by simp⟩
  | mail | rcpt | data | message =>
    rw [hp] at hgate
    exact Or.inl hgate
  | done ok =>
    rw [hp] at hgate
    refine Or.imp_right (fun ⟨hw, hok⟩ => ⟨hw, ?_⟩) hgate
    rw [hok]
    simp

/-! ## A server that answers -/

/-- A line with its LF. -/
def Full (l : Bytes) : Prop := ∃ x, l = x ++ [LF] ∧ LF ∉ x

/-- A reply of one or more lines, all of which begin with its code. -/
structure Reply where
  code : Bytes
  lines : List Bytes
  length_code : code.length = 3
  ne_nil : lines ≠ []
  line : ∀ l ∈ lines, code <+: l ∧ Full l

/-- The replies of a server to the connection, the commands and the end of the message; only DATA is
answered with 354. -/
structure Replies where
  greeting : Reply
  ehlo : Reply
  mail : Reply
  rcpt : Reply
  data : Reply
  message : Reply
  accepts : ∀ r ∈ [greeting, ehlo, mail, rcpt, message], r.code ≠ ascii "354"

/-- The lines of the first replies. -/
def Replies.lines (p : Replies) (n : ℕ) : List Bytes :=
  (([p.greeting, p.ehlo, p.mail, p.rcpt, p.data, p.message].take n).map Reply.lines).flatten

/-- The replies that are due: those to the commands that have been written. -/
def Phase.due : Phase → ℕ
  | .dialing => 0
  | .greeting => 1
  | .ehlo _ _ => 2
  | .mail => 3
  | .rcpt => 4
  | .data => 5
  | .message | .done _ => 6

/-- The server sends its replies in their order, and none before it is due. -/
def Answers (p : Replies) (s : State) (e : Event) : Prop :=
  ∀ chunk, e = .peerSends chunk → s.sent ++ chunk <+: (p.lines s.phase.due).flatten

instance (p : Replies) (s : State) : (e : Event) → Decidable (Answers p s e)
  | .peerSends chunk =>
    decidable_of_iff (s.sent ++ chunk <+: (p.lines s.phase.due).flatten) (by simp [Answers])
  | .connects | .peerCloses | .reads | .fails => .isTrue (by simp [Answers])

/-- Every command and the message have been accepted. -/
def Replies.Genuine (p : Replies) : Prop :=
  p.mail.code = ascii "250" ∧ p.rcpt.code = ascii "250" ∧ p.data.code = ascii "354" ∧
    p.message.code = ascii "250"

/-! ### Lines of replies -/

theorem lines_flatten_append {ls : List Bytes} (h : ∀ l ∈ ls, Full l) (y : Bytes) :
    lines (ls.flatten ++ y) = ls ++ lines y := by
  induction ls with
  | nil => rfl
  | cons l ls ih =>
    obtain ⟨x, rfl, hx⟩ := h l List.mem_cons_self
    have hrest := ih fun l hl => h l (List.mem_cons_of_mem _ hl)
    rw [List.flatten_cons, List.append_assoc, List.append_assoc, List.singleton_append,
      lines_line hx, hrest, List.cons_append]

/-- What begins a text begins its first line, up to the end of the line. -/
theorem lines_begin {x : Bytes} (hne : x ≠ []) (hx : LF ∉ x) (t : Bytes) :
    ∃ l ls, lines (x ++ t) = l :: ls ∧ x <+: l := by
  induction t using lines_induction with
  | nil => exact ⟨x, [], by rw [List.append_nil, lines_last hne hx], List.prefix_rfl⟩
  | last y hy hlf =>
    refine ⟨x ++ y, [], lines_last (by simp [hne]) ?_, List.prefix_append x y⟩
    simp [hx, hlf]
  | line y r hlf ih =>
    refine ⟨x ++ y ++ [LF], lines r, ?_, (List.prefix_append x y).trans (List.prefix_append _ _)⟩
    rw [← List.append_assoc, lines_line (by simp [hx, hlf])]

theorem Reply.code_eq {r : Reply} {l w : Bytes} (hl : l ∈ r.lines) (hw : w.length = 3)
    (h : w <+: l) : r.code = w := by
  have hcode := (r.line l hl).1
  refine (List.prefix_of_prefix_length_le hcode h ?_).eq_of_length ?_ <;> rw [r.length_code, hw]

theorem Replies.lines_succ (p : Replies) :
    p.lines 3 = p.lines 2 ++ p.mail.lines ∧ p.lines 4 = p.lines 3 ++ p.rcpt.lines ∧
      p.lines 5 = p.lines 4 ++ p.data.lines ∧ p.lines 6 = p.lines 5 ++ p.message.lines := by
  simp [Replies.lines]

theorem Replies.lines_mono (p : Replies) {m n : ℕ} (h : m ≤ n) : p.lines m <+: p.lines n := by
  have htake : List.take m [p.greeting, p.ehlo, p.mail, p.rcpt, p.data, p.message] <+:
      List.take n [p.greeting, p.ehlo, p.mail, p.rcpt, p.data, p.message] :=
    List.take_prefix_take_left h
  obtain ⟨r, hr⟩ := htake.map Reply.lines
  exact ⟨r.flatten, by rw [Replies.lines, ← List.flatten_append, hr]; rfl⟩

theorem Replies.full (p : Replies) {n : ℕ} {l : Bytes} (h : l ∈ p.lines n) : Full l := by
  obtain ⟨ls, hls, hl⟩ := List.mem_flatten.1 h
  obtain ⟨r, -, rfl⟩ := List.mem_map.1 hls
  exact (r.line l hl).2

/-- Before the reply to DATA no line begins with 354. -/
theorem Replies.not_354 (p : Replies) {l : Bytes} (h : l ∈ p.lines 4) : ¬ ascii "354" <+: l := by
  intro h354
  obtain ⟨ls, hls, hl⟩ := List.mem_flatten.1 h
  obtain ⟨r, hr, rfl⟩ := List.mem_map.1 hls
  refine p.accepts r ?_ (Reply.code_eq hl rfl h354)
  simp only [List.take, List.mem_cons, List.not_mem_nil, or_false] at hr ⊢
  tauto

/-- A 354 that comes as the third line after the client has written MAIL, the lines having been read
as early as they were, is the reply to DATA, and the two lines before it are the replies to MAIL and
RCPT. -/
theorem Replies.caught_up (p : Replies) {pre : List Bytes} {r₁ r₂ r₃ : Bytes}
    (h₁ : pre ++ [r₁] <+: p.lines 3) (h₂ : pre ++ [r₁, r₂] <+: p.lines 4)
    (h₃ : pre ++ [r₁, r₂, r₃] <+: p.lines 5) (hr₁ : ascii "250" <+: r₁) (hr₂ : ascii "250" <+: r₂)
    (hr₃ : ascii "354" <+: r₃) :
    p.mail.code = ascii "250" ∧ p.rcpt.code = ascii "250" ∧ p.data.code = ascii "354" ∧
      pre ++ [r₁, r₂] = p.lines 4 := by
  obtain ⟨hmail, hrcpt, hdata, -⟩ := p.lines_succ
  -- the 354 stands in the reply to DATA, and is its first line
  rw [hdata] at h₃
  rcases prefix_append_cases h₃ with h | ⟨d, hd, hd₃, hdd⟩
  · exact absurd hr₃ (p.not_354 (h.subset (by simp)))
  have hlen₂ := h₂.length_le
  have hlen₃ := congrArg List.length hd₃
  have hdpos := List.length_pos_of_ne_nil hd
  simp only [List.length_append, List.length_cons, List.length_nil] at hlen₂ hlen₃
  have h4 : pre ++ [r₁, r₂] = p.lines 4 := h₂.eq_of_length (by simp; omega)
  have hd' : [r₃] = d := by
    rw [← h4] at hd₃
    simpa using hd₃
  -- so the line before it is the whole reply to RCPT, and the one before ends the reply to MAIL
  have hlen₁ := h₁.length_le
  have hlen₄ := congrArg List.length (h4.trans hrcpt)
  have hrpos := List.length_pos_of_ne_nil p.rcpt.ne_nil
  simp only [List.length_append, List.length_cons, List.length_nil] at hlen₁ hlen₄
  have h3 : pre ++ [r₁] = p.lines 3 := h₁.eq_of_length (by simp; omega)
  have hr' : [r₂] = p.rcpt.lines := by
    rw [hrcpt, ← h3] at h4
    simpa using h4
  have hm : r₁ ∈ p.mail.lines := by
    obtain ⟨ms, m, hms⟩ := (List.eq_nil_or_concat p.mail.lines).resolve_left p.mail.ne_nil
    rw [hmail, hms] at h3
    obtain rfl : r₁ = m := by simpa using congrArg List.getLast? h3
    simp [hms]
  exact ⟨Reply.code_eq hm rfl hr₁, Reply.code_eq (hr' ▸ List.mem_cons_self) rfl hr₂,
    Reply.code_eq (hdd.subset (hd' ▸ List.mem_cons_self)) rfl hr₃, h4⟩

/-! ### What the client takes for the answers -/

/-- What has been read and what waits in the inbox is what the server has sent, a beginning of the
replies that are due. -/
structure InStep (p : Replies) (s : State) : Prop where
  sent : s.sent = (received s.log).flatten ++ s.inbox
  conform : s.sent <+: (p.lines s.phase.due).flatten
  full : ∀ l ∈ received s.log, Full l

/-- The last lines are what the client took for the answers to its commands; those of them that may
lag behind were read before the next reply was due. -/
def Caught (p : Replies) (rs : List Bytes) : Phase → Prop
  | .rcpt => ∃ pre r₁, rs = pre ++ [r₁] ∧ ascii "250" <+: r₁ ∧ rs <+: p.lines 3
  | .data => ∃ pre r₁ r₂, rs = pre ++ [r₁, r₂] ∧ ascii "250" <+: r₁ ∧ ascii "250" <+: r₂ ∧
      pre ++ [r₁] <+: p.lines 3 ∧ rs <+: p.lines 4
  | .message => p.mail.code = ascii "250" ∧ p.rcpt.code = ascii "250" ∧
      p.data.code = ascii "354" ∧ ∃ r₃, rs = p.lines 4 ++ [r₃]
  | _ => True

/-- The dialogue is in step, or the stream has ended and all of it has been read. -/
def Track (p : Replies) (s : State) : Prop :=
  match s.phase with
  | .done ok => ok → p.Genuine
  | _ => (s.closed = true ∧ s.inbox = []) ∨ InStep p s ∧ Caught p (received s.log) s.phase

theorem InStep.lines {p : Replies} {s : State} (h : InStep p s) :
    ∃ t, p.lines s.phase.due = received s.log ++ Bytes.lines (s.inbox ++ t) := by
  obtain ⟨t, ht⟩ := h.conform
  refine ⟨t, ?_⟩
  have hlines : Bytes.lines ((p.lines s.phase.due).flatten ++ []) = _ :=
    lines_flatten_append (fun l hl => p.full hl) []
  rw [List.append_nil, lines_nil, List.append_nil, ← ht, h.sent, List.append_assoc,
    lines_flatten_append h.full] at hlines
  exact hlines.symm

/-- A line that `readline` returns is a full line, or the stream has ended with it. -/
theorem nextLine_cases {inbox l rest : Bytes} {closed : Bool}
    (h : nextLine inbox closed = .line l rest) :
    (Full l ∧ inbox = l ++ rest) ∨ (closed = true ∧ rest = [] ∧ l = inbox ∧ LF ∉ inbox) := by
  by_cases hlf : LF ∈ inbox
  · obtain ⟨x, r, rfl, hx⟩ := List.eq_append_cons_of_mem hlf
    rw [nextLine, cut_byte hx] at h
    simp only at h
    split at h
    · obtain ⟨rfl, rfl⟩ := Read.line.inj h
      exact Or.inl ⟨⟨x, rfl, hx⟩, by simp⟩
    · cases h
  · have hcut : cut [LF] inbox = none := by
      refine Option.eq_none_iff_forall_ne_some.2 fun q hq => hlf ?_
      rw [cut_eq hq]
      simp
    rw [nextLine, hcut] at h
    simp only at h
    split at h
    · cases h
    · split at h
      next hc =>
        obtain ⟨rfl, rfl⟩ := Read.line.inj h
        exact Or.inr ⟨hc, rfl, rfl, hlf⟩
      · cases h

/-- The next line of the replies begins with the line that `readline` returns. -/
theorem InStep.next {p : Replies} {s : State} {l rest : Bytes} (hs : InStep p s) (hne : l ≠ [])
    (h : nextLine s.inbox s.closed = .line l rest) :
    ∃ y ys, p.lines s.phase.due = received s.log ++ y :: ys ∧ l <+: y ∧ (Full l → y = l) := by
  obtain ⟨t, ht⟩ := hs.lines
  rcases nextLine_cases h with ⟨⟨x, rfl, hx⟩, hin⟩ | ⟨-, -, rfl, hlf⟩
  · refine ⟨x ++ [LF], Bytes.lines (rest ++ t), ?_, List.prefix_rfl, fun _ => rfl⟩
    rw [ht, hin]
    simp [lines_line hx]
  · obtain ⟨y, ys, hy, hpre⟩ := lines_begin hne hlf t
    refine ⟨y, ys, ht.trans (congrArg _ hy), hpre, ?_⟩
    rintro ⟨x, hx, -⟩
    simp [hx] at hlf

theorem received_advance (c : Client) (log : List Io) (l : Bytes) (phase : Phase) :
    received (log ++ .line l :: (advance c l phase).2) = received log ++ [l] := by
  have h : received (advance c l phase).2 = [] := by
    cases phase <;> simp only [advance, shaken] <;> (repeat' split) <;> rfl
  rw [received_append, received_line, h]

theorem due_advance (c : Client) (l : Bytes) (phase : Phase) :
    phase.due ≤ (advance c l phase).1.due := by
  cases phase <;> simp only [advance, shaken] <;> (repeat' split) <;> simp [Phase.due]

theorem advance_caught {p : Replies} {rs : List Bytes} {l : Bytes} {phase : Phase} (c : Client)
    (hl : rs ++ [l] <+: p.lines phase.due) (hc : Caught p rs phase) :
    Caught p (rs ++ [l]) (advance c l phase).1 := by
  cases phase with
  | dialing | done ok => trivial
  | greeting | ehlo more saw =>
    simp only [advance, shaken]
    repeat' split
    all_goals trivial
  | mail =>
    simp only [advance]
    split
    next h => exact ⟨rs, l, rfl, h, hl⟩
    · trivial
  | rcpt =>
    obtain ⟨pre, r₁, rfl, hr₁, h₁⟩ := hc
    simp only [advance]
    split
    next h => exact ⟨pre, r₁, l, by simp, hr₁, h, h₁, hl⟩
    · trivial
  | data =>
    obtain ⟨pre, r₁, r₂, rfl, hr₁, hr₂, h₁, h₂⟩ := hc
    simp only [advance]
    split
    next h =>
      rw [List.append_assoc] at hl
      obtain ⟨hmail, hrcpt, hdata, h4⟩ := p.caught_up h₁ h₂ hl hr₁ hr₂ h
      exact ⟨hmail, hrcpt, hdata, l, by rw [h4]⟩
    · trivial
  | message => trivial

theorem advance_done {c : Client} {l : Bytes} {phase : Phase} (hlive : ∀ ok, phase ≠ .done ok)
    (h : (advance c l phase).1 = .done true) : phase = .message ∧ ascii "250" <+: l := by
  cases phase with
  | message => exact ⟨rfl, by simpa [advance] using h⟩
  | done ok => exact absurd rfl (hlive ok)
  | dialing => cases h
  | greeting | ehlo more saw | mail | rcpt | data =>
    simp only [advance, shaken] at h
    repeat' split at h
    all_goals simp at h

/-- The line that begins with 250 after the 354 is the answer to the message. -/
theorem genuine_of_message {p : Replies} {s : State} {l rest : Bytes} (hs : InStep p s)
    (hphase : s.phase = .message) (hc : Caught p (received s.log) s.phase)
    (h : nextLine s.inbox s.closed = .line l rest) (hl : ascii "250" <+: l) : p.Genuine := by
  rw [hphase] at hc
  obtain ⟨hmail, hrcpt, hdata, r₃, hr₃⟩ := hc
  have hne : l ≠ [] := by
    rintro rfl
    simp [ascii] at hl
  obtain ⟨y, ys, hy, hly, -⟩ := hs.next hne h
  obtain ⟨-, -, h5, h6⟩ := p.lines_succ
  rw [hphase, Phase.due, h6, h5, hr₃, List.append_assoc, List.append_assoc,
    List.append_cancel_left_eq] at hy
  refine ⟨hmail, hrcpt, hdata, ?_⟩
  cases hd : p.data.lines with
  | nil => exact absurd hd p.data.ne_nil
  | cons a as =>
    rw [hd, List.cons_append] at hy
    have hys := (List.cons.inj hy).2
    cases as with
    | nil =>
      rw [List.nil_append] at hys
      have hmem : y ∈ p.message.lines := by simp [hys]
      exact Reply.code_eq hmem rfl (hl.trans hly)
    | cons b as =>
      -- a further line of the reply to DATA begins with 354
      have hb : b = y := (List.cons.inj hys).1
      have hmem : y ∈ p.data.lines := by simp [hd, hb]
      have := Reply.code_eq hmem rfl (hl.trans hly)
      rw [hdata] at this
      exact absurd this (by decide)

/-! ### Runs -/

theorem track_of_live {p : Replies} {s : State} (hdone : ∀ ok, s.phase ≠ .done ok) :
    Track p s ↔ (s.closed = true ∧ s.inbox = []) ∨
      InStep p s ∧ Caught p (received s.log) s.phase := by
  unfold Track
  split
  next ok hp => exact absurd hp (hdone ok)
  · rfl

theorem track_of_failed {p : Replies} {s : State} (h : s.phase = .done false) : Track p s := by
  simp [Track, h]

/-- A line is read in step. -/
theorem read_track {p : Replies} {c : Client} {s : State} {l rest : Bytes}
    (hlive : ∀ ok, s.phase ≠ .done ok) (hs : Track p s)
    (h : nextLine s.inbox s.closed = .line l rest) :
    Track p { s with
      phase := (advance c l s.phase).1, inbox := rest
      log := s.log ++ .line l :: (advance c l s.phase).2 } := by
  rw [track_of_live hlive] at hs
  by_cases hd : ∃ ok, (advance c l s.phase).1 = .done ok
  · obtain ⟨ok, hd⟩ := hd
    simp only [Track, hd]
    rintro rfl
    obtain ⟨hphase, h250⟩ := advance_done hlive hd
    rcases hs with ⟨hclosed, hinbox⟩ | ⟨hs, hc⟩
    · rw [hinbox, hclosed] at h
      obtain ⟨rfl, -⟩ := Read.line.inj h
      simp [ascii] at h250
    · exact genuine_of_message hs hphase hc h h250
  · refine (track_of_live fun ok hok => hd ⟨ok, hok⟩).2 ?_
    rcases nextLine_cases h with ⟨hfull, hin⟩ | ⟨hclosed, hrest, -, -⟩
    · right
      rcases hs with ⟨-, hinbox⟩ | ⟨hs, hc⟩
      · obtain ⟨x, rfl, -⟩ := hfull
        simp [hinbox] at hin
      have hne : l ≠ [] := by
        obtain ⟨x, rfl, -⟩ := hfull
        simp
      obtain ⟨y, ys, hy, -, heq⟩ := hs.next hne h
      rw [heq hfull] at hy
      have hl : received s.log ++ [l] <+: p.lines s.phase.due := ⟨ys, by simp [hy]⟩
      show InStep _ _ ∧ Caught p (received (s.log ++ _)) _
      rw [received_advance]
      refine ⟨⟨?_, ?_, ?_⟩, advance_caught c hl hc⟩
      · show s.sent = (received (s.log ++ _)).flatten ++ rest
        rw [received_advance, hs.sent, hin]
        simp
      · obtain ⟨r, hr⟩ := p.lines_mono (due_advance c l s.phase)
        refine hs.conform.trans ⟨r.flatten, ?_⟩
        show _ = (p.lines (advance c l s.phase).1.due).flatten
        rw [← hr, List.flatten_append]
      · intro l' hl'
        replace hl' : l' ∈ received (s.log ++ _) := hl'
        rw [received_advance] at hl'
        rcases List.mem_append.1 hl' with hl' | hl'
        · exact hs.full l' hl'
        · exact List.mem_singleton.1 hl' ▸ hfull
    · exact Or.inl ⟨hclosed, hrest⟩

theorem step_track {p : Replies} {c : Client} (s : State) (e : Event) (s' : State)
    (hs : Track p s) (hC : Answers p s e) (h : step c s e = some s') : Track p s' := by
  cases e with
  | connects =>
    obtain ⟨hp, rfl⟩ := by simpa [step] using h
    have hlive : ∀ ok, s.phase ≠ .done ok := by simp [hp]
    refine (track_of_live (by simp)).2 (((track_of_live hlive).1 hs).imp_right fun ⟨hin, _⟩ => ?_)
    have hsent : s.sent = [] := by
      have := hin.conform
      rw [hp] at this
      exact List.prefix_nil.1 this
    refine ⟨⟨hin.sent, ?_, hin.full⟩, trivial⟩
    show s.sent <+: _
    rw [hsent]
    exact List.nil_prefix
  | peerSends chunk =>
    obtain ⟨⟨-, hclosed⟩, rfl⟩ := by simpa [step] using h
    by_cases hd : ∃ ok, s.phase = .done ok
    · obtain ⟨ok, hd⟩ := hd
      simpa [Track, hd] using hs
    · have hlive : ∀ ok, s.phase ≠ .done ok := fun ok hok => hd ⟨ok, hok⟩
      refine (track_of_live (s := { s with
        inbox := s.inbox ++ chunk, sent := s.sent ++ chunk }) hlive).2 (Or.inr ?_)
      rcases (track_of_live hlive).1 hs with ⟨hc, -⟩ | ⟨hin, hc⟩
      · simp [hclosed] at hc
      · refine ⟨⟨?_, hC chunk rfl, hin.full⟩, hc⟩
        show s.sent ++ chunk = _ ++ (s.inbox ++ chunk)
        rw [hin.sent, List.append_assoc]
  | peerCloses =>
    obtain ⟨-, rfl⟩ := by simpa [step] using h
    by_cases hd : ∃ ok, s.phase = .done ok
    · obtain ⟨ok, hd⟩ := hd
      simpa [Track, hd] using hs
    · have hlive : ∀ ok, s.phase ≠ .done ok := fun ok hok => hd ⟨ok, hok⟩
      refine (track_of_live (s := { s with closed := true }) hlive).2
        (((track_of_live hlive).1 hs).imp ?_ ?_)
      · exact fun ⟨_, hinbox⟩ => ⟨rfl, hinbox⟩
      · exact fun ⟨hin, hc⟩ => ⟨⟨hin.sent, hin.conform, hin.full⟩, hc⟩
  | reads =>
    obtain ⟨hlive, ⟨l, rest, hl, rfl⟩ | rfl⟩ := reads_cases h
    · exact read_track hlive.2 hs hl
    · exact track_of_failed rfl
  | fails =>
    simp only [step] at h
    split at h
    · cases h
    · obtain rfl := Option.some.inj h
      exact track_of_failed rfl

theorem start_track (p : Replies) : Track p start :=
  Or.inr ⟨⟨rfl, List.nil_prefix, by simp [start, received]⟩, trivial⟩

/-- Against a server that answers each command with one reply the result is true only if it has
accepted every command and the message. -/
theorem crossSite_genuine {p : Replies} {c : Client} {es : List Event} {s : State}
    (hC : Along (step c) (Answers p) start es) (h : run (step c) start es = some s)
    (hok : s.phase = .done true) : p.Genuine := by
  have hs := run_invariant (step_track (p := p)) (start_track p) hC h
  simp only [Track, hok] at hs
  exact hs trivial

/-- The reply with the code and the texts of its lines. -/
def Reply.of (code : Bytes) (texts : List Bytes) (length_code : code.length = 3)
    (ne_nil : texts ≠ []) (no_lf : ∀ t ∈ texts, LF ∉ code ++ t) : Reply where
  code
  lines := texts.map fun t => code ++ t ++ [LF]
  length_code
  ne_nil := by simpa using ne_nil
  line l hl := by
    obtain ⟨t, ht, rfl⟩ := List.mem_map.1 hl
    exact ⟨(List.prefix_append code t).trans (List.prefix_append _ _), _, rfl, no_lf t ht⟩

def sampleReplies : Replies where
  greeting := .of (ascii "220") [ascii " b.example\r"] rfl (by decide) (by decide)
  ehlo := .of (ascii "250") [ascii "-b.example\r", ascii " XAXIOM-FATMAMA\r"] rfl (by decide)
    (by decide)
  mail := .of (ascii "250") [ascii " OK\r"] rfl (by decide) (by decide)
  rcpt := .of (ascii "250") [ascii " OK\r"] rfl (by decide) (by decide)
  data := .of (ascii "354") [ascii " Go\r"] rfl (by decide) (by decide)
  message := .of (ascii "250") [ascii "-stored\r", ascii " OK\r"] rfl (by decide) (by decide)
  accepts := by decide

def sampleClient : Client :=
  ⟨ascii "a.example", ascii "fatmama@a.example", ascii "bob@axiom", ascii "hi\r\n"⟩

/-- The whole dialogue; the server's greeting comes in two chunks. -/
def sampleDialogue : List Event :=
  [.connects, .peerSends (ascii "220 b.ex"), .peerSends (ascii "ample\r\n"), .reads,
    .peerSends (ascii "250-b.example\r\n250 XAXIOM-FATMAMA\r\n"), .reads, .reads,
    .peerSends (ascii "250 OK\r\n"), .reads, .peerSends (ascii "250 OK\r\n"), .reads,
    .peerSends (ascii "354 Go\r\n"), .reads, .peerSends (ascii "250-stored\r\n250 OK\r\n"),
    .reads]

theorem crossSite_gate_sample :
    ∃ s, run (step sampleClient) start sampleDialogue = some s ∧
      (Opened sampleClient s.log ∨
        (written s.log <+: [sampleClient.ehlo] ∧ s.phase ≠ .done true)) := by
  have hr : (run (step sampleClient) start sampleDialogue).isSome := by decide +kernel
  obtain ⟨s, hs⟩ := Option.isSome_iff_exists.1 hr
  exact ⟨s, hs, crossSite_gate hs⟩

theorem crossSite_genuine_sample :
    ∃ s, run (step sampleClient) start sampleDialogue = some s ∧ s.phase = .done true ∧
      sampleReplies.Genuine := by
  have hr : (run (step sampleClient) start sampleDialogue).map State.phase =
      some (.done true) := by decide +kernel
  obtain ⟨s, hs, hok⟩ := Option.map_eq_some_iff.1 hr
  exact ⟨s, hs, hok, crossSite_genuine (by decide +kernel) hs hok⟩

end Fatmama.Dial
