import AxiomCarriers.Fatmama.Smtp
import AxiomCarriers.Lib.History
import Mathlib.Algebra.Group.Prod
import Mathlib.Algebra.Order.Ring.Rat

/-!
# The dashboard of FATMAMA

Every message that reaches the server at the end of a DATA is counted and recorded as an event; the
collectors count what they pass on.  The dashboard reads the counters and a ring of the last events
over HTTP: `/events` a tail of it, `/per-recipient` sums over a window of time.

The ring and the counters are the history of the server (`run_counts`).  Where the clock does not go
back, an answer tells the reader whether it may have missed events (`poll_next`), and sums whose
flag is down are the sums over the window (`perRecipient_exact`).
-/

namespace Fatmama.Dashboard

open Bytes Runs History

/-! ## Events and counters -/

inductive Kind
  | deliver
  | deliverFailed
  | reject
  deriving DecidableEq

def Kind.text : Kind → Bytes
  | .deliver => ascii "DELIVER"
  | .deliverFailed => ascii "DELIVER_FAILED"
  | .reject => ascii "REJECT"

structure Event where
  ts : ℚ
  kind : Kind
  addr : Address
  bytes : Option ℕ
  reason : Option Bytes
  deriving DecidableEq

/-- The counters and the ring; `history` is every event that was recorded. -/
structure Monitor where
  stats : List (Address × ℕ)
  totalDelivered : ℕ
  totalDropped : ℕ
  totalPop3Retrieved : ℕ
  bytesTotal : ℕ
  bytesByRecipient : List (Address × ℕ)
  lastDeliveryTs : Option ℚ
  eventRing : List Event
  history : List Event
  deriving DecidableEq

def Monitor.new : Monitor := ⟨[], 0, 0, 0, 0, [], none, [], []⟩

/-- `_record_event`. -/
def Monitor.recordEvent (maxlen : ℕ) (m : Monitor) (ev : Event) : Monitor :=
  { m with eventRing := push maxlen m.eventRing ev, history := m.history ++ [ev] }

/-- What the end of a DATA does to the counters, once the recipient may have been created; the clock
is read twice. -/
def account (maxlen : ℕ) (env : Env) (delivered ts : ℚ) (server : State) (rcptTo : Address)
    (messageData : Bytes) (m : Monitor) : Monitor :=
  if rcptTo = [] then m
  else match Table.get server.routes rcptTo with
    | some _ =>
      if env.written then
        let n := messageData.length
        Monitor.recordEvent maxlen { m with
          stats := add m.stats rcptTo 1
          totalDelivered := m.totalDelivered + 1
          bytesTotal := m.bytesTotal + n
          bytesByRecipient := add m.bytesByRecipient rcptTo n
          lastDeliveryTs := some delivered } ⟨ts, .deliver, rcptTo, some n, none⟩
      else m.recordEvent maxlen ⟨ts, .deliverFailed, rcptTo, none, some env.error⟩
    | none =>
      Monitor.recordEvent maxlen { m with totalDropped := m.totalDropped + 1 }
        ⟨ts, .reject, rcptTo, none, some (ascii "no-route")⟩

/-- The server with its counters; `stored` is every message that a DATA has put into a mailbox,
`collected` every message that a collector has. -/
structure Site where
  server : State
  monitor : Monitor
  stored : List (Path × Bytes)
  collected : List (Path × Bytes)
  deriving DecidableEq

inductive Happening
  /-- The end of a DATA: the recipient and the message. -/
  | message (env : Env) (delivered ts : ℚ) (rcptTo : Address) (messageData : Bytes)
  /-- A collector has passed a message on: into a mailbox here, or to another site. -/
  | moved (name : Bytes) (dest : Option Path) (raw : Bytes)
  /-- A message was retrieved by POP3. -/
  | retrieved
  /-- Others have changed the routes and files. -/
  | others (server : State)

/-- A connection on which the recipient was accepted. -/
def pending (server : State) (rcptTo : Address) : Connection :=
  ⟨server, true, [], rcptTo, [], [], [], []⟩

def step (c : SmtpConfig) (maxlen : ℕ) (s : Site) : Happening → Option Site
  | .message env delivered ts rcptTo messageData =>
    let server := prepare c env (pending s.server rcptTo)
    let stored := deliver env server rcptTo messageData
    some ⟨{ server with files := addMail env.name stored server.files },
      account maxlen env delivered ts server rcptTo messageData s.monitor, s.stored ++ stored,
      s.collected⟩
  | .moved name dest raw =>
    let collected := dest.toList.map (·, raw)
    some ⟨{ s.server with files := addMail name collected s.server.files },
      { s.monitor with totalDelivered := s.monitor.totalDelivered + 1 }, s.stored,
      s.collected ++ collected⟩
  | .retrieved => some { s with monitor := { s.monitor with
      totalPop3Retrieved := s.monitor.totalPop3Retrieved + 1 } }
  | .others server => some { s with server }

def start (server : State) : Site := ⟨server, Monitor.new, [], []⟩

/-- A DATA of an SMTP connection is such an end. -/
theorem handleData_step (c : SmtpConfig) (maxlen : ℕ) {env : Env} (henv : ¬ env.lost)
    (delivered ts : ℚ) (conn : Connection) (s : Site) (hs : s.server = conn.server) :
    (step c maxlen s (.message env delivered ts conn.rcptTo
      (unstuff (readData env.overread conn.input).1))).map Site.server =
      some (handleData c env conn).server := by
  have hprepare : prepare c env (pending conn.server conn.rcptTo) = prepare c env conn := rfl
  simp only [step, Option.map_some, hs, hprepare, handleData, if_neg henv]
  rfl

/-! ## The answers -/

/-- What `/events` is asked for; an empty text is no filter. -/
structure EventsQuery where
  since : ℚ
  limit : ℤ
  kind : Bytes
  addr : Bytes

structure EventsAnswer where
  count : ℕ
  events : List Event
  ringOldestTs : Option ℚ
  ringNewestTs : Option ℚ

def EventsQuery.bounded (q : EventsQuery) : ℕ :=
  if q.limit < 1 then 1 else if 2000 < q.limit then 2000 else q.limit.toNat

def EventsQuery.wanted (q : EventsQuery) (ev : Event) : Bool :=
  (q.kind = [] || ev.kind.text = q.kind) && (q.addr = [] || ev.addr = q.addr)

/-- The endpoint `/events`. -/
def events (q : EventsQuery) (m : Monitor) : EventsAnswer :=
  let out := (scan (fun ev => ev.ts ≤ q.since) q.wanted q.bounded m.eventRing.reverse []).reverse
  ⟨out.length, out, m.eventRing.head?.map Event.ts, m.eventRing.getLast?.map Event.ts⟩

/-- The loop of `/per-recipient` on an event: deliveries and bytes of each address. -/
def tally (cutoff : ℚ) (recipients : List (Address × (ℕ × ℕ))) (ev : Event) :
    List (Address × (ℕ × ℕ)) :=
  if ev.ts < cutoff then recipients
  else if ev.kind ≠ .deliver then recipients
  else if ev.addr = [] then recipients
  else
    let d := (Table.get recipients ev.addr).getD (0, 0)
    Table.put recipients ev.addr (d.1 + 1, d.2 + ev.bytes.getD 0)

/-- The endpoint `/per-recipient`: the recipients, and `ring_window_truncated`. -/
def perRecipient (maxlen : ℕ) (now window : ℚ) (m : Monitor) : List (Address × (ℕ × ℕ)) × Bool :=
  let cutoff := now - window
  (m.eventRing.foldl (tally cutoff) [],
    m.eventRing.length = maxlen && m.eventRing.head?.any (cutoff < ·.ts))

/-- The endpoint `/per-recipient-lifetime`. -/
def perRecipientLifetime (m : Monitor) (a : Address) : ℕ × ℕ :=
  (count m.stats a, count m.bytesByRecipient a)

/-! ## The counters and the history -/

/-- The deliveries of a history, to one recipient or to all. -/
def deliveriesTo (a : Address) (l : List Event) : List Event :=
  l.filter fun ev => ev.kind = .deliver && ev.addr = a

def deliveries (l : List Event) : List Event := l.filter (·.kind = .deliver)

/-- The bytes that the events report. -/
def sizes (l : List Event) : ℕ := (l.map fun ev => ev.bytes.getD 0).sum

/-- The ring and the counters are those of the history, and the deliveries of the history are what
was stored. -/
structure Accounts (maxlen : ℕ) (s : Site) : Prop where
  ring : s.monitor.eventRing = s.monitor.history.rtake maxlen
  stats : ∀ a, count s.monitor.stats a = (deliveriesTo a s.monitor.history).length
  bytes : ∀ a, count s.monitor.bytesByRecipient a = sizes (deliveriesTo a s.monitor.history)
  statsKeys : (Table.keys s.monitor.stats).Nodup
  bytesKeys : (Table.keys s.monitor.bytesByRecipient).Nodup
  statsTotal : total s.monitor.stats = (deliveries s.monitor.history).length
  bytesTotal : s.monitor.bytesTotal = total s.monitor.bytesByRecipient
  bytesSizes : s.monitor.bytesTotal = sizes (deliveries s.monitor.history)
  dropped : s.monitor.totalDropped = (s.monitor.history.filter (·.kind = .reject)).length
  named : ∀ ev ∈ s.monitor.history, ev.addr ≠ []
  stored : (deliveries s.monitor.history).map Event.bytes = s.stored.map (some ·.2.length)

variable {c : SmtpConfig} {maxlen : ℕ} {env : Env} {delivered ts : ℚ} {server : State}
  {rcptTo : Address} {messageData : Bytes} {m : Monitor} {s t : Site} {e : Happening}

theorem accounts_start (maxlen : ℕ) (server : State) : Accounts maxlen (start server) where
  ring := by simp [start, Monitor.new]
  stats a := rfl
  bytes a := rfl
  statsKeys := List.nodup_nil
  bytesKeys := List.nodup_nil
  statsTotal := rfl
  bytesTotal := rfl
  bytesSizes := rfl
  dropped := rfl
  named ev h := absurd h List.not_mem_nil
  stored := rfl

theorem deliveriesTo_concat (a : Address) (l : List Event) (ev : Event) :
    deliveriesTo a (l ++ [ev]) =
      deliveriesTo a l ++ if ev.kind = .deliver ∧ ev.addr = a then [ev] else [] := by
  by_cases h : ev.kind = .deliver ∧ ev.addr = a
  · simp [deliveriesTo, List.filter_append, h]
  · rw [if_neg h, deliveriesTo, List.filter_append, List.filter_cons_of_neg (by simpa using h)]
    rfl

theorem deliveries_concat (l : List Event) (ev : Event) :
    deliveries (l ++ [ev]) = deliveries l ++ if ev.kind = .deliver then [ev] else [] := by
  by_cases h : ev.kind = .deliver <;> simp [deliveries, List.filter_append, h]

theorem sizes_append (l l' : List Event) : sizes (l ++ l') = sizes l + sizes l' := by
  simp [sizes]

/-- A message is stored and recorded as a delivery, or nothing is stored: for no recipient nothing
is recorded, and for another the failure or the refusal. -/
theorem message_cases (maxlen : ℕ) (env : Env) (delivered ts : ℚ)
    (server : State) (rcptTo : Address) (messageData : Bytes) (m : Monitor) :
    (rcptTo = [] ∧ deliver env server rcptTo messageData = [] ∧
      account maxlen env delivered ts server rcptTo messageData m = m) ∨
    (∃ maildir, rcptTo ≠ [] ∧ deliver env server rcptTo messageData = [(maildir, messageData)] ∧
      account maxlen env delivered ts server rcptTo messageData m =
        Monitor.recordEvent maxlen { m with
          stats := add m.stats rcptTo 1
          totalDelivered := m.totalDelivered + 1
          bytesTotal := m.bytesTotal + messageData.length
          bytesByRecipient := add m.bytesByRecipient rcptTo messageData.length
          lastDeliveryTs := some delivered }
          ⟨ts, .deliver, rcptTo, some messageData.length, none⟩) ∨
    (rcptTo ≠ [] ∧ deliver env server rcptTo messageData = [] ∧
      account maxlen env delivered ts server rcptTo messageData m =
        m.recordEvent maxlen ⟨ts, .deliverFailed, rcptTo, none, some env.error⟩) ∨
    (rcptTo ≠ [] ∧ deliver env server rcptTo messageData = [] ∧
      account maxlen env delivered ts server rcptTo messageData m =
        Monitor.recordEvent maxlen { m with totalDropped := m.totalDropped + 1 }
          ⟨ts, .reject, rcptTo, none, some (ascii "no-route")⟩) := by
  by_cases hr : rcptTo = []
  · exact Or.inl ⟨hr, by simp [deliver, mailboxOf, hr], by rw [account, if_pos hr]⟩
  · refine Or.inr ?_
    cases hget : Table.get server.routes rcptTo with
    | none =>
      exact Or.inr (Or.inr ⟨hr, by simp [deliver, mailboxOf, hr, hget],
        by simp only [account, if_neg hr, hget]⟩)
    | some maildir =>
      by_cases hw : env.written
      · exact Or.inl ⟨maildir, hr, by simp [deliver, mailboxOf, hr, hget, hw],
          by simp only [account, if_neg hr, hget, if_pos hw]⟩
      · exact Or.inr (Or.inl ⟨hr, by simp [deliver, mailboxOf, hr, hget, hw],
          by simp only [account, if_neg hr, hget, if_neg hw]⟩)

/-- An event that is no delivery leaves the sums as they are. -/
theorem accounts_recordEvent (h : Accounts maxlen s) (server : State) (ev : Event)
    (hkind : ev.kind ≠ .deliver) (haddr : ev.addr ≠ []) : Accounts maxlen ⟨server,
      Monitor.recordEvent maxlen { s.monitor with
        totalDropped := s.monitor.totalDropped + if ev.kind = .reject then 1 else 0 } ev,
      s.stored, s.collected⟩ where
  ring := by
    show push maxlen s.monitor.eventRing ev = (s.monitor.history ++ [ev]).rtake maxlen
    rw [h.ring, push_rtake]
  stats a := by
    show count s.monitor.stats a = (deliveriesTo a (s.monitor.history ++ [ev])).length
    rw [deliveriesTo_concat, if_neg (by simp [hkind]), List.append_nil, h.stats]
  bytes a := by
    show count s.monitor.bytesByRecipient a = sizes (deliveriesTo a (s.monitor.history ++ [ev]))
    rw [deliveriesTo_concat, if_neg (by simp [hkind]), List.append_nil, h.bytes]
  statsKeys := h.statsKeys
  bytesKeys := h.bytesKeys
  statsTotal := by
    show total s.monitor.stats = (deliveries (s.monitor.history ++ [ev])).length
    rw [deliveries_concat, if_neg hkind, List.append_nil, h.statsTotal]
  bytesTotal := h.bytesTotal
  bytesSizes := by
    show s.monitor.bytesTotal = sizes (deliveries (s.monitor.history ++ [ev]))
    rw [deliveries_concat, if_neg hkind, List.append_nil, h.bytesSizes]
  dropped := by
    show s.monitor.totalDropped + _ = ((s.monitor.history ++ [ev]).filter _).length
    rw [h.dropped, List.filter_append, List.length_append]
    by_cases hreject : ev.kind = .reject <;> simp [hreject]
  named x hx := by
    rcases List.mem_append.1 hx with hx | hx
    · exact h.named x hx
    · rw [List.mem_singleton.1 hx]
      exact haddr
  stored := by
    show (deliveries (s.monitor.history ++ [ev])).map Event.bytes = _
    rw [deliveries_concat, if_neg hkind, List.append_nil, h.stored]

theorem accounts_delivery (h : Accounts maxlen s) (server : State) (delivered ts : ℚ)
    {rcptTo : Address} (hr : rcptTo ≠ []) (maildir : Path) (messageData : Bytes) :
    Accounts maxlen ⟨server, Monitor.recordEvent maxlen { s.monitor with
        stats := add s.monitor.stats rcptTo 1
        totalDelivered := s.monitor.totalDelivered + 1
        bytesTotal := s.monitor.bytesTotal + messageData.length
        bytesByRecipient := add s.monitor.bytesByRecipient rcptTo messageData.length
        lastDeliveryTs := some delivered }
        ⟨ts, .deliver, rcptTo, some messageData.length, none⟩,
      s.stored ++ [(maildir, messageData)], s.collected⟩ where
  ring := by
    show push maxlen s.monitor.eventRing _ = (s.monitor.history ++ [_]).rtake maxlen
    rw [h.ring, push_rtake]
  stats a := by
    show count (add s.monitor.stats rcptTo 1) a =
      (deliveriesTo a (s.monitor.history ++ [_])).length
    rw [count_add, deliveriesTo_concat, List.length_append, h.stats]
    by_cases ha : rcptTo = a <;> simp [ha]
  bytes a := by
    show count (add s.monitor.bytesByRecipient rcptTo messageData.length) a =
      sizes (deliveriesTo a (s.monitor.history ++ [_]))
    rw [count_add, deliveriesTo_concat, sizes_append, h.bytes]
    by_cases ha : rcptTo = a <;> simp [ha, sizes]
  statsKeys := nodup_add h.statsKeys _ _
  bytesKeys := nodup_add h.bytesKeys _ _
  statsTotal := by
    show total (add s.monitor.stats rcptTo 1) = (deliveries (s.monitor.history ++ [_])).length
    rw [total_add h.statsKeys, deliveries_concat, if_pos rfl, List.length_append, h.statsTotal,
      List.length_singleton]
  bytesTotal := by
    show s.monitor.bytesTotal + messageData.length =
      total (add s.monitor.bytesByRecipient rcptTo messageData.length)
    rw [total_add h.bytesKeys, h.bytesTotal]
  bytesSizes := by
    show s.monitor.bytesTotal + messageData.length =
      sizes (deliveries (s.monitor.history ++ [_]))
    rw [deliveries_concat, if_pos rfl, sizes_append, h.bytesSizes]
    rfl
  dropped := by
    show s.monitor.totalDropped = ((s.monitor.history ++ [_]).filter _).length
    rw [List.filter_append, List.length_append, h.dropped]
    rfl
  named x hx := by
    rcases List.mem_append.1 hx with hx | hx
    · exact h.named x hx
    · rw [List.mem_singleton.1 hx]
      exact hr
  stored := by
    show (deliveries (s.monitor.history ++ [_])).map Event.bytes = _
    rw [deliveries_concat, if_pos rfl, List.map_append, List.map_append, h.stored]
    rfl

theorem step_accounts (h : Accounts maxlen s) (he : step c maxlen s e = some t) :
    Accounts maxlen t := by
  cases e with
  | message env delivered ts rcptTo messageData =>
    obtain rfl := Option.some.inj he
    rcases message_cases maxlen env delivered ts (prepare c env (pending s.server rcptTo)) rcptTo
      messageData s.monitor with ⟨-, hs, hm⟩ | ⟨maildir, hr, hs, hm⟩ | ⟨hr, hs, hm⟩ | ⟨hr, hs, hm⟩
    · rw [hs, hm, List.append_nil]
      exact ⟨h.ring, h.stats, h.bytes, h.statsKeys, h.bytesKeys, h.statsTotal, h.bytesTotal,
        h.bytesSizes, h.dropped, h.named, h.stored⟩
    · rw [hs, hm]
      exact accounts_delivery h _ delivered ts hr maildir messageData
    · rw [hs, hm, List.append_nil]
      exact accounts_recordEvent h _ ⟨ts, .deliverFailed, rcptTo, none, some env.error⟩
        Kind.noConfusion hr
    · rw [hs, hm, List.append_nil]
      exact accounts_recordEvent h _ ⟨ts, .reject, rcptTo, none, some (ascii "no-route")⟩
        Kind.noConfusion hr
  | moved name dest raw | retrieved | others server =>
    obtain rfl := Option.some.inj he
    exact ⟨h.ring, h.stats, h.bytes, h.statsKeys, h.bytesKeys, h.statsTotal, h.bytesTotal,
      h.bytesSizes, h.dropped, h.named, h.stored⟩

def isMoved : Happening → Bool
  | .moved .. => true
  | _ => false

/-- Only deliveries and moves are counted as delivered. -/
theorem step_totalDelivered (h : Accounts maxlen s) (he : step c maxlen s e = some t) :
    t.monitor.totalDelivered + total s.monitor.stats =
      s.monitor.totalDelivered + total t.monitor.stats + if isMoved e then 1 else 0 := by
  cases e with
  | message env delivered ts rcptTo messageData =>
    obtain rfl := Option.some.inj he
    rcases message_cases maxlen env delivered ts (prepare c env (pending s.server rcptTo)) rcptTo
      messageData s.monitor with ⟨-, -, hm⟩ | ⟨maildir, -, -, hm⟩ | ⟨-, -, hm⟩ | ⟨-, -, hm⟩
    · simp [hm, isMoved]
    · have hadd := total_add h.statsKeys rcptTo 1
      simp only [hm, Monitor.recordEvent, isMoved, hadd, Bool.false_eq_true, if_false]
      omega
    · simp [hm, isMoved, Monitor.recordEvent]
    · simp [hm, isMoved, Monitor.recordEvent]
  | moved name dest raw =>
    obtain rfl := Option.some.inj he
    simp only [isMoved, if_true]
    omega
  | retrieved | others server =>
    obtain rfl := Option.some.inj he
    simp [isMoved]

theorem run_totalDelivered {es : List Happening} (h : Accounts maxlen s)
    (hr : run (step c maxlen) s es = some t) :
    t.monitor.totalDelivered + total s.monitor.stats =
      s.monitor.totalDelivered + total t.monitor.stats + es.countP isMoved := by
  induction es generalizing s with
  | nil =>
    obtain rfl := Option.some.inj hr
    rfl
  | cons e es ih =>
    obtain ⟨u, he, hr⟩ := run_cons_iff.1 hr
    have hstep := step_totalDelivered h he
    have hrest := ih (step_accounts h he) hr
    rw [List.countP_cons]
    omega

/-- In every run of the server the ring is the end of its history; a recipient is counted with the
deliveries to it and their bytes, which are the messages that a DATA has stored; the totals are the
sums over the recipients.  What the collectors have passed on is counted as delivered, and its bytes
are counted nowhere. -/
theorem run_counts {server : State} {es : List Happening}
    (hr : run (step c maxlen) (start server) es = some t) :
    Accounts maxlen t ∧
      t.monitor.totalDelivered = (deliveries t.monitor.history).length + es.countP isMoved ∧
      t.monitor.bytesTotal = (t.stored.map (·.2.length)).sum := by
  have h : Accounts maxlen t :=
    run_preserves (fun s e s' hs he => step_accounts hs he) (accounts_start maxlen server) hr
  have htotal := run_totalDelivered (accounts_start maxlen server) hr
  have hstart : (start server).monitor.totalDelivered = 0 := rfl
  have hstats : total (start server).monitor.stats = 0 := rfl
  refine ⟨h, ?_, ?_⟩
  · rw [← h.statsTotal]
    omega
  · have hmap : (deliveries t.monitor.history).map (fun ev => ev.bytes.getD 0) =
        t.stored.map (·.2.length) := by
      have hstored := congrArg (List.map (Option.getD · 0)) h.stored
      rwa [List.map_map, List.map_map] at hstored
    rw [h.bytesSizes, sizes, hmap]

def sampleServer : State := ⟨[(ascii "a@axiom", [ascii "box"])], [], []⟩

/-- A delivery, a refusal, a message of a collector and another delivery. -/
def sampleHappenings : List Happening :=
  [.message goodEnv 0 1 (ascii "a@axiom") (ascii "hi"),
    .message goodEnv 1 2 (ascii "b@axiom") (ascii "lost"),
    .moved (ascii "m") (some [ascii "box"]) (ascii "more"),
    .message goodEnv 2 3 (ascii "a@axiom") (ascii "again")]

theorem run_counts_sample : ∃ t,
    run (step smtpConfig 2) (start sampleServer) sampleHappenings = some t ∧ Accounts 2 t ∧
      t.monitor.totalDelivered = 3 ∧ t.monitor.bytesTotal = 7 := by
  have hrun : (run (step smtpConfig 2) (start sampleServer) sampleHappenings).map
      (fun t => ((deliveries t.monitor.history).length, (t.stored.map (·.2.length)).sum)) =
      some (2, 7) := by decide +kernel
  obtain ⟨t, ht, hcounts⟩ := Option.map_eq_some_iff.1 hrun
  obtain ⟨haccounts, hdelivered, hbytes⟩ := run_counts ht
  obtain ⟨hlen, hsum⟩ := Prod.mk.inj hcounts
  have hmoved : sampleHappenings.countP isMoved = 1 := rfl
  exact ⟨t, ht, haccounts, by omega, by omega⟩

/-! ## The tail of the history -/

/-- The clock is not behind an event that was recorded. -/
def Forward (s : Site) : Happening → Prop
  | .message _ _ ts _ _ => ∀ ev ∈ s.monitor.history, ev.ts ≤ ts
  | _ => True

instance (s : Site) (e : Happening) : Decidable (Forward s e) := by
  unfold Forward
  split <;> infer_instance

/-- The history is sorted by time. -/
def Sorted (m : Monitor) : Prop := m.history.Pairwise fun x y => x.ts ≤ y.ts

/-- A step records at most one event, at its time. -/
theorem step_history (he : step c maxlen s e = some t) :
    t.monitor.history = s.monitor.history ∨
      ∃ env delivered ts rcptTo messageData ev,
        e = .message env delivered ts rcptTo messageData ∧ ev.ts = ts ∧
          t.monitor.history = s.monitor.history ++ [ev] := by
  cases e with
  | message env delivered ts rcptTo messageData =>
    obtain rfl := Option.some.inj he
    rcases message_cases maxlen env delivered ts (prepare c env (pending s.server rcptTo)) rcptTo
      messageData s.monitor with ⟨-, -, hm⟩ | ⟨maildir, -, -, hm⟩ | ⟨-, -, hm⟩ | ⟨-, -, hm⟩
    · exact Or.inl (congrArg Monitor.history hm)
    · exact Or.inr ⟨_, _, _, _, _, _, rfl, rfl, congrArg Monitor.history hm⟩
    · exact Or.inr ⟨_, _, _, _, _, _, rfl, rfl, congrArg Monitor.history hm⟩
    · exact Or.inr ⟨_, _, _, _, _, _, rfl, rfl, congrArg Monitor.history hm⟩
  | moved name dest raw | retrieved | others server =>
    obtain rfl := Option.some.inj he
    exact Or.inl rfl

theorem step_sorted (h : Sorted s.monitor) (hf : Forward s e) (he : step c maxlen s e = some t) :
    Sorted t.monitor := by
  rcases step_history he with ht | ⟨env, delivered, ts, rcptTo, messageData, ev, rfl, rfl, ht⟩
  · rw [Sorted, ht]
    exact h
  · rw [Sorted, ht]
    refine List.pairwise_append.2 ⟨h, List.pairwise_singleton _ _, fun x hx y hy => ?_⟩
    rw [List.mem_singleton.1 hy]
    exact hf x hx

theorem run_history {es : List Happening} (hr : run (step c maxlen) s es = some t) :
    s.monitor.history <+: t.monitor.history := by
  refine run_preserves (I := fun u => s.monitor.history <+: u.monitor.history)
    (fun u e v hu he => ?_) (List.prefix_refl _) hr
  rcases step_history he with hv | ⟨_, _, _, _, _, ev, -, -, hv⟩
  · exact hv ▸ hu
  · exact hv ▸ hu.trans (List.prefix_append _ _)

theorem EventsQuery.bounded_pos (q : EventsQuery) : 0 < q.bounded := by
  unfold EventsQuery.bounded
  split_ifs <;> omega

/-- The events that a query asks for. -/
def EventsQuery.asked (q : EventsQuery) (ev : Event) : Bool := q.since < ev.ts && q.wanted ev

/-- The answer is the last of the events asked for that are still in the ring. -/
theorem events_eq {m : Monitor} (hring : m.eventRing = m.history.rtake maxlen) (hsorted : Sorted m)
    (q : EventsQuery) :
    (events q m).events = ((m.history.rtake maxlen).filter q.asked).rtake q.bounded := by
  have hpair : (m.history.rtake maxlen).Pairwise fun x y =>
      (!decide (x.ts ≤ q.since)) → !decide (y.ts ≤ q.since) := by
    refine (hsorted.sublist (rtake_suffix _ _).sublist).imp fun {x y} hxy hx => ?_
    simp only [Bool.not_eq_true', decide_eq_false_iff_not, not_le] at hx ⊢
    exact hx.trans_le hxy
  simp only [events, hring]
  rw [scan_eq q.bounded_pos hpair]
  congr 2
  funext ev
  simp only [EventsQuery.asked, ← not_le, decide_not]

/-- Where the oldest event of the ring is not newer than the time asked for, the ring has everything
that is. -/
theorem evicted_old {m : Monitor} (hsorted : Sorted m) {since : ℚ}
    (hold : ∃ ev ∈ (m.history.rtake maxlen).head?, ev.ts ≤ since) :
    ∀ x ∈ m.history.take (m.history.length - maxlen), x.ts ≤ since := by
  obtain ⟨ev, hev, hle⟩ := hold
  intro x hx
  have hmem : ev ∈ m.history.rtake maxlen := List.mem_of_mem_head? hev
  have hpair := hsorted
  rw [Sorted, eq_append_rtake m.history maxlen] at hpair
  exact ((List.pairwise_append.1 hpair).2.2 x hx ev hmem).trans hle

/-- The newest event of the ring is the newest of all. -/
theorem le_newest {m : Monitor} (hring : m.eventRing = m.history.rtake maxlen) (hsorted : Sorted m)
    {q : EventsQuery} {newest : ℚ} (hnewest : (events q m).ringNewestTs = some newest) :
    ∀ x ∈ m.history, x.ts ≤ newest := by
  obtain ⟨ev, hev, rfl⟩ := Option.map_eq_some_iff.1 hnewest
  rw [hring] at hev
  obtain ⟨l, hl⟩ := List.getLast?_eq_some_iff.1 hev
  obtain ⟨before, hbefore⟩ := rtake_suffix m.history maxlen
  rw [hl, ← List.append_assoc] at hbefore
  intro x hx
  have hpair := hsorted
  rw [Sorted, ← hbefore] at hpair
  rw [← hbefore] at hx
  rcases List.mem_append.1 hx with hx | hx
  · exact (List.pairwise_append.1 hpair).2.2 x hx ev (List.mem_singleton.2 rfl)
  · rw [List.mem_singleton.1 hx]

/-- The order of the history in a run whose clock does not go back. -/
theorem run_sorted {server : State} {es : List Happening}
    (hf : Along (step c maxlen) Forward (start server) es)
    (hr : run (step c maxlen) (start server) es = some t) : Sorted t.monitor := by
  have hnil : Sorted (start server).monitor := List.Pairwise.nil
  exact run_invariant (I := fun u => Sorted u.monitor)
    (fun _ _ _ hu hC he => step_sorted hu hC he) hnil hf hr

/-- A reader that asks for what is newer than the newest event of its last answer gets the end of
what was recorded since then, in order and nothing twice; and all of it, where fewer events came
than it asked for and the oldest event of the ring is not newer than its last answer. -/
theorem poll_next {server : State} {es es' : List Happening} {q q' : EventsQuery} {newest : ℚ}
    (hf : Along (step c maxlen) Forward (start server) (es ++ es'))
    (hs : run (step c maxlen) (start server) es = some s)
    (ht : run (step c maxlen) s es' = some t)
    (hnewest : (events q s.monitor).ringNewestTs = some newest) (hsince : q'.since = newest) :
    (events q' t.monitor).events <:+
        (t.monitor.history.drop s.monitor.history.length).filter q'.asked ∧
      ((events q' t.monitor).count < q'.bounded →
        (∃ oldest ∈ (events q' t.monitor).ringOldestTs, oldest ≤ newest) →
        (events q' t.monitor).events =
          (t.monitor.history.drop s.monitor.history.length).filter q'.asked) := by
  have hst : run (step c maxlen) (start server) (es ++ es') = some t :=
    run_append_iff.2 ⟨s, hs, ht⟩
  have hfs : Along (step c maxlen) Forward (start server) es := along_iff.2
    fun before e after u hsplit hu => along_iff.1 hf before e (after ++ es') u (by
      rw [hsplit, List.append_assoc, List.cons_append]) hu
  have hsort : Sorted t.monitor := run_sorted hf hst
  have hring : t.monitor.eventRing = t.monitor.history.rtake maxlen := (run_counts hst).1.ring
  obtain ⟨new, hnew⟩ := run_history ht
  have hdrop : t.monitor.history.drop s.monitor.history.length = new := by
    rw [← hnew, List.drop_left]
  have hbefore : s.monitor.history.filter q'.asked = [] := by
    refine List.filter_eq_nil_iff.2 fun x hx => ?_
    have hle := le_newest (run_counts hs).1.ring (run_sorted hfs hs) hnewest x hx
    simp [EventsQuery.asked, hsince, hle.not_gt]
  have hall : t.monitor.history.filter q'.asked = new.filter q'.asked := by
    rw [← hnew, List.filter_append, hbefore, List.nil_append]
  have hevents := events_eq hring hsort q'
  rw [hdrop, ← hall]
  refine ⟨?_, fun hcount hold => ?_⟩
  · rw [hevents]
    exact (rtake_suffix _ _).trans ((rtake_suffix _ _).filter _)
  · obtain ⟨oldest, holdest, hle⟩ := hold
    obtain ⟨ev, hev, rfl⟩ := Option.map_eq_some_iff.1 holdest
    rw [hring] at hev
    have hev' := evicted_old hsort ⟨ev, hev, hle⟩
    have hlen : ((t.monitor.history.rtake maxlen).filter q'.asked).length ≤ q'.bounded := by
      have hlt : (events q' t.monitor).events.length < q'.bounded := hcount
      rw [hevents, length_rtake] at hlt
      omega
    have hfull : (t.monitor.history.rtake maxlen).filter q'.asked =
        t.monitor.history.filter q'.asked :=
      filter_rtake fun x hx => by simp [EventsQuery.asked, hsince, (hev' x hx).not_gt]
    rw [hevents, rtake_eq_self hlen, hfull]

/-- The reader has seen the first delivery; the ring holds two events. -/
theorem poll_next_sample : ∃ t,
    run (step smtpConfig 2) (start sampleServer) sampleHappenings = some t ∧
      (events ⟨1, 5, [], []⟩ t.monitor).events <:+
        (t.monitor.history.drop 1).filter (EventsQuery.asked ⟨1, 5, [], []⟩) ∧
      (events ⟨1, 5, [], []⟩ t.monitor).count = 2 := by
  have hrun : (run (step smtpConfig 2) (start sampleServer) (sampleHappenings.take 1)).isSome := by
    decide +kernel
  obtain ⟨s, hs⟩ := Option.isSome_iff_exists.1 hrun
  have hrest : ((run (step smtpConfig 2) (start sampleServer) (sampleHappenings.take 1)).bind
      fun s => (run (step smtpConfig 2) s (sampleHappenings.drop 1)).map fun t =>
        (s.monitor.history.length, (events ⟨1, 5, [], []⟩ t.monitor).count)) = some (1, 2) := by
    decide +kernel
  have hnewest : ((run (step smtpConfig 2) (start sampleServer) (sampleHappenings.take 1)).map
      fun s => (events ⟨0, 5, [], []⟩ s.monitor).ringNewestTs) = some (some 1) := by
    decide +kernel
  rw [hs, Option.bind_some] at hrest
  rw [hs] at hnewest
  obtain ⟨t, ht, hcount⟩ := Option.map_eq_some_iff.1 hrest
  obtain ⟨hlen, hcount⟩ := Prod.mk.inj hcount
  have hforward : Along (step smtpConfig 2) Forward (start sampleServer)
      (sampleHappenings.take 1 ++ sampleHappenings.drop 1) := by decide +kernel
  have hpoll := (poll_next hforward hs ht (Option.some.inj hnewest)
    (rfl : (EventsQuery.mk 1 5 [] []).since = 1)).1
  rw [hlen] at hpoll
  exact ⟨t, run_append_iff.2 ⟨s, hs, ht⟩, hpoll, hcount⟩

/-! ## The sums over a window -/

theorem tally_getD {cutoff : ℚ} {a : Address} (ha : a ≠ []) (ev : Event)
    (recipients : List (Address × (ℕ × ℕ))) :
    (Table.get (tally cutoff recipients ev) a).getD (0, 0) =
      (Table.get recipients a).getD (0, 0) +
        if cutoff ≤ ev.ts ∧ ev.kind = .deliver ∧ ev.addr = a then (1, ev.bytes.getD 0)
        else (0, 0) := by
  unfold tally
  by_cases hts : ev.ts < cutoff
  · simp [hts, hts.not_ge]
  rw [if_neg hts]
  by_cases hkind : ev.kind = .deliver
  · rw [if_neg (not_not.2 hkind)]
    by_cases haddr : ev.addr = a
    · have hne : ev.addr ≠ [] := haddr ▸ ha
      rw [if_neg hne, haddr, Table.get_put_self, if_pos ⟨not_lt.1 hts, hkind, rfl⟩]
      rfl
    · by_cases hnil : ev.addr = []
      · simp [hnil, Ne.symm ha]
      · simp [hnil, haddr]
  · simp [hkind]

/-- The deliveries to an address from a time on. -/
def deliveriesFrom (cutoff : ℚ) (a : Address) (l : List Event) : List Event :=
  (deliveriesTo a l).filter (cutoff ≤ ·.ts)

/-- The deliveries to an address after a time. -/
def deliveriesAfter (cutoff : ℚ) (a : Address) (l : List Event) : List Event :=
  (deliveriesTo a l).filter (cutoff < ·.ts)

theorem foldl_tally {cutoff : ℚ} {a : Address} (ha : a ≠ []) (l : List Event)
    (recipients : List (Address × (ℕ × ℕ))) :
    (Table.get (l.foldl (tally cutoff) recipients) a).getD (0, 0) =
      (Table.get recipients a).getD (0, 0) +
        ((deliveriesFrom cutoff a l).length, sizes (deliveriesFrom cutoff a l)) := by
  induction l generalizing recipients with
  | nil => rfl
  | cons ev l ih =>
    rw [List.foldl_cons, ih, tally_getD ha, add_assoc]
    congr 1
    by_cases h : cutoff ≤ ev.ts ∧ ev.kind = .deliver ∧ ev.addr = a
    · obtain ⟨hts, hkind, haddr⟩ := h
      simp [deliveriesFrom, deliveriesTo, sizes, hts, hkind, haddr, Nat.add_comm]
    · have hskip : deliveriesFrom cutoff a (ev :: l) = deliveriesFrom cutoff a l := by
        rw [deliveriesFrom, deliveriesFrom, deliveriesTo, deliveriesTo, List.filter_filter,
          List.filter_filter, List.filter_cons_of_neg (by simpa using h)]
      rw [if_neg h, hskip]
      exact Prod.ext (Nat.zero_add _) (Nat.zero_add _)

theorem deliveriesAfter_suffix {cutoff : ℚ} {a : Address} {l : List Event}
    (h : l.Pairwise fun x y => x.ts ≤ y.ts) :
    deliveriesAfter cutoff a l <:+ deliveriesFrom cutoff a l := by
  have hpair : (deliveriesFrom cutoff a l).Pairwise fun x y =>
      decide (cutoff < x.ts) → decide (cutoff < y.ts) := by
    refine ((h.filter _).filter _).imp fun {x y} hxy hx => ?_
    exact decide_eq_true ((of_decide_eq_true hx).trans_le hxy)
  have hfilter : deliveriesAfter cutoff a l =
      (deliveriesFrom cutoff a l).filter (cutoff < ·.ts) := by
    rw [deliveriesFrom, List.filter_filter, deliveriesAfter]
    refine List.filter_congr fun x _ => ?_
    rw [Bool.eq_iff_iff, Bool.and_eq_true, decide_eq_true_iff, decide_eq_true_iff]
    exact ⟨fun hx => ⟨hx, hx.le⟩, And.left⟩
  rw [hfilter, ← rtakeWhile_eq_filter hpair]
  exact List.rtakeWhile_suffix _ _

/-- Sums whose flag is down are those of the whole history over the window; only deliveries at the
very time where the window begins may be missing. -/
theorem perRecipient_exact {server : State} {es : List Happening} {now window : ℚ} {a : Address}
    (ha : a ≠ []) (hlen : 0 < maxlen) (hf : Along (step c maxlen) Forward (start server) es)
    (hr : run (step c maxlen) (start server) es = some t)
    (hflag : (perRecipient maxlen now window t.monitor).2 = false) :
    ∃ counted, deliveriesAfter (now - window) a t.monitor.history <:+ counted ∧
      counted <:+ deliveriesFrom (now - window) a t.monitor.history ∧
      (Table.get (perRecipient maxlen now window t.monitor).1 a).getD (0, 0) =
        (counted.length, sizes counted) := by
  have h := (run_counts hr).1
  have hsort := run_sorted hf hr
  have hevicted : ∀ x ∈ t.monitor.history.take (t.monitor.history.length - maxlen),
      x.ts ≤ now - window := by
    rcases Nat.lt_or_ge t.monitor.history.length maxlen with hlt | hge
    · rw [Nat.sub_eq_zero_of_le hlt.le, List.take_zero]
      exact fun x hx => absurd hx List.not_mem_nil
    · have hfull : (t.monitor.history.rtake maxlen).length = maxlen := by
        rw [length_rtake, Nat.min_eq_left hge]
      obtain ⟨ev, hev⟩ : ∃ ev, (t.monitor.history.rtake maxlen).head? = some ev := by
        cases hl : t.monitor.history.rtake maxlen with
        | nil => rw [hl] at hfull; exact absurd hfull hlen.ne
        | cons ev l => exact ⟨ev, rfl⟩
      refine evicted_old hsort ⟨ev, hev, ?_⟩
      simpa [perRecipient, h.ring, hfull, hev] using hflag
  refine ⟨deliveriesFrom (now - window) a (t.monitor.history.rtake maxlen), ?_, ?_, ?_⟩
  · have hafter : deliveriesAfter (now - window) a t.monitor.history =
        deliveriesAfter (now - window) a (t.monitor.history.rtake maxlen) := by
      simp only [deliveriesAfter, deliveriesTo, List.filter_filter]
      exact (filter_rtake fun x hx => by simp [(hevicted x hx).not_gt]).symm
    rw [hafter]
    exact deliveriesAfter_suffix (hsort.sublist (rtake_suffix _ _).sublist)
  · exact ((rtake_suffix _ _).filter _).filter _
  · simp only [perRecipient, h.ring]
    rw [foldl_tally ha]
    exact zero_add (_ : ℕ × ℕ)

/-- The window reaches back to the refusal, and the second delivery is in it. -/
theorem perRecipient_exact_sample : ∃ t counted,
    run (step smtpConfig 2) (start sampleServer) sampleHappenings = some t ∧
      deliveriesAfter 2 (ascii "a@axiom") t.monitor.history <:+ counted ∧
      (Table.get (perRecipient 2 3 1 t.monitor).1 (ascii "a@axiom")).getD (0, 0) =
        (counted.length, sizes counted) := by
  have hrun : (run (step smtpConfig 2) (start sampleServer) sampleHappenings).map
      (fun t => (perRecipient 2 3 1 t.monitor).2) = some false := by decide +kernel
  obtain ⟨t, ht, hflag⟩ := Option.map_eq_some_iff.1 hrun
  have hforward : Along (step smtpConfig 2) Forward (start sampleServer) sampleHappenings := by
    decide +kernel
  have hwindow : (3 : ℚ) - 1 = 2 := by norm_num
  obtain ⟨counted, hafter, -, hgot⟩ :=
    perRecipient_exact (a := ascii "a@axiom") (by decide) (by decide) hforward ht hflag
  rw [hwindow] at hafter
  exact ⟨t, counted, ht, hafter, hgot⟩

end Fatmama.Dashboard
