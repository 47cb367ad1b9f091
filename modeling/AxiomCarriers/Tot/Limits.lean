import AxiomCarriers.Tot.Deliveries

/-!
# Bounds on what connections do to TOT

A WebSocket has a limiter of its own, which answers for each message in time (`Limited`), so that
`rate_bounded` carries the bound of the limiter over to the messages that the inbox gets.  `dials_attested`
says where the server dials.
-/

namespace Tot.Server

open Bytes Text Runs
open Tunnel (Message)

variable {c : Setup} {inbox : Inbox} {s t : State} {e : Event} {k : ℕ} {conn : Conn}
  {acc pub : List Entry}

/-! ## The rate of a connection -/

/-- The limiter that a connection has begun with. -/
def Conn.first (c : Setup) (conn : Conn) : RateLimiter := .new c.intakeMaxMsgsPerSec conn.created

/-- The limiter has answered the calls, and the entries of a WebSocket are among those allowed. -/
def Limited (c : Setup) (conn : Conn) (admitted : List Entry) : Prop :=
  conn.limiter = (conn.first c).after conn.calls ∧
    ((∀ x ∈ admitted, x.origin ≠ .tcp) →
      (admitted.map Entry.time).Sublist ((conn.first c).allowed conn.calls))

/-- The limiters are as they were. -/
def SameLimiters (s t : State) : Prop := ∀ j, (t.conns j).created = (s.conns j).created ∧
  (t.conns j).limiter = (s.conns j).limiter ∧ (t.conns j).calls = (s.conns j).calls

theorem sameLimiters_setConn (s : State) (k : ℕ) {conn : Conn}
    (h : conn.created = (s.conns k).created ∧ conn.limiter = (s.conns k).limiter ∧
      conn.calls = (s.conns k).calls) : SameLimiters s (s.setConn k conn) := by
  intro j
  rcases eq_or_ne j k with rfl | hne
  · simpa [State.setConn] using h
  · simp [State.setConn, hne]

theorem sameLimiters_setTask (s : State) (k : ℕ) (task : Task) :
    SameLimiters s (s.setTask k task) := sameLimiters_setConn s k ⟨rfl, rfl, rfl⟩

theorem Limited.same {conn conn' : Conn} (h : Limited c conn acc)
    (hsame : conn'.created = conn.created ∧ conn'.limiter = conn.limiter ∧
      conn'.calls = conn.calls) : Limited c conn' acc := by
  unfold Limited Conn.first at h ⊢
  rw [hsame.1, hsame.2.1, hsame.2.2]
  exact h

theorem onHead_task (c : Setup) (s : State) (k : ℕ) (bytes : Bytes) :
    ∃ task, onHead c s k bytes = s.setTask k task := by
  unfold onHead
  dsimp only
  split_ifs <;> exact ⟨_, rfl⟩

theorem dial_task (s : State) (k : ℕ) (name : String) (nodes : List NablaNode) (idx : ℕ)
    (set : String) : ∃ task, (dial s k name nodes idx set).conns = (s.setTask k task).conns ∧
      (dial s k name nodes idx set).log = s.log := by
  unfold dial
  split <;> exact ⟨_, rfl, rfl⟩

theorem onIo_task {x : Entry} {stage : Stage} {result : Io} (ht : onIo s k x stage result = some t) :
    ∃ task, t.conns = (s.setTask k task).conns ∧ t.log = s.log ∧ t.dialled = s.dialled := by
  cases stage with
  | begin => cases ht
  | create name | sync name =>
    cases result with
    | ok | err text removed => obtain rfl := Option.some.inj ht; exact ⟨_, rfl, rfl, rfl⟩
    | wrote m => cases ht
  | write name n =>
    cases result with
    | ok | wrote m =>
      rw [onIo] at ht
      split at ht
      · obtain rfl := Option.some.inj ht
        exact ⟨_, rfl, rfl, rfl⟩
      · cases ht
    | err text removed => obtain rfl := Option.some.inj ht; exact ⟨_, rfl, rfl, rfl⟩
  | rename name =>
    cases result with
    | ok =>
      obtain ⟨bytes, -, rfl⟩ := Option.map_eq_some_iff.1 ht
      exact ⟨_, rfl, rfl, rfl⟩
    | err text removed => obtain rfl := Option.some.inj ht; exact ⟨_, rfl, rfl, rfl⟩
    | wrote m => cases ht

/-- A handshake only sets the task, or begins a leg with a limiter of its own. -/
theorem onUpgraded_cases (c : Setup) (s : State) (k : ℕ) (path random : Bytes) (now : ℕ)
    (dir : Bool) :
    (∃ task, (onUpgraded c s k path random now dir).conns = (s.setTask k task).conns ∧
      (onUpgraded c s k path random now dir).log = s.log) ∨
    ∃ conn : Conn, onUpgraded c s k path random now dir = s.setConn k conn ∧
      conn.limiter = conn.first c ∧ conn.calls = [] := by
  unfold onUpgraded
  split
  · exact Or.inr ⟨_, rfl, rfl, rfl⟩
  · by_cases hrandom : random.length = 32
    · simp only [hrandom, dite_true]
      split
      · exact Or.inl ⟨_, rfl, rfl⟩
      · split
        · exact Or.inl ⟨_, rfl, rfl⟩
        · exact Or.inr ⟨_, rfl, rfl, rfl⟩
    · simp only [hrandom, dite_false]
      exact Or.inl ⟨_, rfl, rfl⟩
  · exact Or.inl (dial_task _ _ _ _ _ _)
  · exact Or.inl (dial_task _ _ _ _ _ _)
  · exact Or.inl ⟨_, rfl, rfl⟩

/-- Only a new leg and a message of one touch the limiter, and only a message or a frame is
admitted. -/
theorem step_limiters (ht : step c s e = some t) :
    (SameLimiters s t ∧ t.log = s.log) ∨
    (∃ x, x.origin = .tcp ∧ SameLimiters s t ∧ t.log = s.log ++ [x]) ∨
    (∃ k conn, (s.conns k).task = .handshake ∧ t = s.setConn k conn ∧
      conn.limiter = conn.first c ∧ conn.calls = []) ∨
    ∃ k o bytes now, (s.conns k).task = .waiting o ∧ t = onBinary c s k o bytes now := by
  have htask : ∀ {k task}, t.conns = (s.setTask k task).conns ∧ t.log = s.log →
      SameLimiters s t ∧ t.log = s.log := fun {k task} h =>
    ⟨fun j => by rw [h.1]; exact sameLimiters_setTask s k task j, h.2⟩
  cases e with
  | accept k =>
    rw [step] at ht
    split_ifs at ht
    obtain rfl := Option.some.inj ht
    exact Or.inl (htask ⟨rfl, rfl⟩)
  | head k bytes =>
    rw [step] at ht
    split_ifs at ht
    obtain ⟨task, hhead⟩ := onHead_task c s k bytes
    obtain rfl := Option.some.inj ht
    exact Or.inl (htask (by rw [hhead]; exact ⟨rfl, rfl⟩))
  | upgraded k path random now dir =>
    rw [step] at ht
    split_ifs at ht with hhandshake
    obtain rfl := Option.some.inj ht
    rcases onUpgraded_cases c s k path random now dir with ⟨task, h⟩ | ⟨conn, h, hlim, hcalls⟩
    · exact Or.inl (htask h)
    · exact Or.inr (Or.inr (Or.inl ⟨k, conn, hhandshake, h, hlim, hcalls⟩))
  | body k bytes =>
    rw [step] at ht
    split at ht
    · split_ifs at ht
      obtain rfl := Option.some.inj ht
      exact Or.inr (Or.inl ⟨⟨k, .tcp, 0, bytes, bytes⟩, rfl,
        sameLimiters_setConn s k ⟨rfl, rfl, rfl⟩, rfl⟩)
    · cases ht
  | message k m now =>
    cases hwaiting : (s.conns k).task with
    | waiting o =>
      cases m with
      | binary bytes =>
        simp only [step, hwaiting] at ht
        exact Or.inr (Or.inr (Or.inr ⟨k, o, bytes, now, hwaiting, (Option.some.inj ht).symm⟩))
      | other =>
        simp only [step, hwaiting] at ht
        obtain rfl := Option.some.inj ht
        exact Or.inl ⟨fun j => ⟨rfl, rfl, rfl⟩, rfl⟩
      | close =>
        simp only [step, hwaiting] at ht
        obtain rfl := Option.some.inj ht
        exact Or.inl (htask ⟨rfl, rfl⟩)
    | idle | head | handshake | frame | delivering | tunnel | ended =>
      simp only [step, hwaiting] at ht
      cases ht
  | closed k | fails k text | draw k secs nanos =>
    rw [step] at ht
    split at ht
    all_goals
      first
      | (obtain rfl := Option.some.inj ht
         exact Or.inl (htask ⟨rfl, rfl⟩))
      | cases ht
  | io k result =>
    rw [step] at ht
    split at ht
    · obtain ⟨task, hconns, hlog, -⟩ := onIo_task ht
      exact Or.inl (htask ⟨hconns, hlog⟩)
    · cases ht
  | take name =>
    obtain ⟨bytes, -, rfl⟩ := Option.map_eq_some_iff.1 ht
    exact Or.inl ⟨fun j => ⟨rfl, rfl, rfl⟩, rfl⟩

/-- A call of the limiter, with what is admitted by it if it is allowed. -/
theorem Limited.call {conn' : Conn} {now : ℕ} {new : List Entry} (h : Limited c conn acc)
    (hcreated : conn'.created = conn.created) (hlimiter : conn'.limiter = (conn.limiter.allow now).2)
    (hcalls : conn'.calls = conn.calls ++ [now])
    (hnew : (new.map Entry.time).Sublist (if (conn.limiter.allow now).1 then [now] else [])) :
    Limited c conn' (acc ++ new) := by
  have hfirst : conn'.first c = conn.first c := by rw [Conn.first, hcreated, Conn.first]
  rw [Limited, hfirst, hlimiter, hcalls, RateLimiter.after_append, RateLimiter.allowed_append, ← h.1]
  refine ⟨rfl, fun hall => ?_⟩
  rw [List.map_append]
  exact (h.2 fun x hx => hall x (List.mem_append_left _ hx)).append hnew

theorem limited_onBinary {o : Origin} (h : ∀ k, Limited c (s.conns k) (s.admitted k)) (k : ℕ)
    (bytes : Bytes) (now : ℕ) (j : ℕ) : Limited c ((onBinary c s k o bytes now).conns j)
      ((onBinary c s k o bytes now).admitted j) := by
  have hset : ∀ conn, Limited c conn (s.admitted k) →
      Limited c ((s.setConn k conn).conns j) ((s.setConn k conn).admitted j) := by
    intro conn hconn
    rcases eq_or_ne j k with rfl | hne
    · simp only [State.setConn, Function.update_self]
      exact hconn
    · simp only [State.setConn, Function.update_of_ne hne]
      exact h j
  have hcall : ∀ {task}, Limited c { s.conns k with
      task
      received := (s.conns k).received ++ [bytes]
      calls := (s.conns k).calls ++ [now]
      limiter := ((s.conns k).limiter.allow now).2 } (s.admitted k ++ []) := fun {task} =>
    (h k).call rfl rfl rfl (List.nil_sublist _)
  rw [List.append_nil] at hcall
  unfold onBinary
  split
  · exact hset _ ((h k).same ⟨rfl, rfl, rfl⟩)
  · split
    · exact hset _ hcall
    · rename_i hallowed
      rw [not_not] at hallowed
      split
      · rename_i out _
        show Limited c (Function.update s.conns k _ j)
          ((s.log ++ [(⟨k, o, now, bytes, out⟩ : Entry)]).filter (·.conn = j))
        rw [admitted_concat]
        rcases eq_or_ne j k with rfl | hne
        · rw [Function.update_self, if_pos rfl]
          exact (h j).call rfl rfl rfl (by rw [if_pos hallowed]; exact List.Sublist.refl _)
        · rw [Function.update_of_ne hne, if_neg hne.symm, List.append_nil]
          exact h j
      · exact hset _ hcall

/-- The limiters at the end of a run. -/
theorem run_limited (hkeys : (Table.keys inbox.new).Nodup)
    {es : List Event} (hr : run (step c) (started c inbox) es = some s) (k : ℕ) :
    Limited c (s.conns k) (s.admitted k) := by
  have hboth : Inv c inbox s ∧ ∀ k, Limited c (s.conns k) (s.admitted k) := by
    refine run_preserves (I := fun u => Inv c inbox u ∧ ∀ k, Limited c (u.conns k) (u.admitted k))
      (fun u e v hu he => ⟨inv_step hu.1 he, fun j => ?_⟩)
      ⟨inv_started hkeys, fun j => ⟨rfl, fun _ => List.Sublist.refl _⟩⟩ hr
    rcases step_limiters he with ⟨hsame, hlog⟩ | ⟨x, hx, hsame, hlog⟩ |
      ⟨k, conn, htask, rfl, hlim, hcalls⟩ | ⟨k, o, bytes, now, -, rfl⟩
    · have hadm : v.admitted j = u.admitted j := by rw [State.admitted, hlog, State.admitted]
      rw [hadm]
      exact (hu.2 j).same (hsame j)
    · have hadm : v.admitted j = u.admitted j ++ if x.conn = j then [x] else [] := by
        rw [State.admitted, hlog, admitted_concat]
      have hold := (hu.2 j).same (hsame j)
      rw [hadm]
      split_ifs
      · exact ⟨hold.1, fun hall => absurd hx (hall x (by simp))⟩
      · rwa [List.append_nil]
    · rcases eq_or_ne j k with rfl | hne
      · have hflow := hu.1.flow j
        rw [Flow, htask] at hflow
        simp only [State.setConn, Function.update_self]
        show Limited c conn (u.admitted j)
        rw [hflow.1]
        exact ⟨by rw [hlim, hcalls]; rfl, fun _ => List.nil_sublist _⟩
      · simp only [State.setConn, Function.update_of_ne hne]
        exact hu.2 j
    · exact limited_onBinary hu.2 k bytes now j
  exact hboth.2 k

/-- However its messages come, as long as the clock does not go back, at most twice as many of a
WebSocket as the limit are admitted within any second, and the inbox gets those, in their order. -/
theorem rate_bounded (hkeys : (Table.keys inbox.new).Nodup)
    {es : List Event} (hr : run (step c) (started c inbox) es = some s)
    (hmax : 0 < c.intakeMaxMsgsPerSec) {k : ℕ} (hws : ∀ x ∈ s.admitted k, x.origin ≠ .tcp)
    (hclock : (s.conns k).calls.Pairwise (· ≤ ·)) (a : ℕ) :
    (RateLimiter.within a ((s.admitted k).map Entry.time)).length ≤ 2 * c.intakeMaxMsgsPerSec ∧
      s.publishedBy k <+: s.admitted k := by
  have hlimited := (run_limited hkeys hr k).2 hws
  have hsub := hlimited.filter fun t => a ≤ t ∧ t < a + oneSecond
  exact ⟨hsub.length_le.trans (RateLimiter.allowed_le_two hmax a hclock),
    ((run_inv hkeys hr).flow k).delivered.inOrder⟩

theorem rate_bounded_one : ∃ s,
    run (step sampleSetup) (started sampleSetup ⟨[], []⟩) sampleEvents = some s ∧
      (s.conns 1).calls = [6, 7] ∧
      (RateLimiter.within 6 ((s.admitted 1).map Entry.time)).length ≤ 2 := by
  have hrun : (run (step sampleSetup) (started sampleSetup ⟨[], []⟩) sampleEvents).map
      (fun s => ((s.conns 1).calls, (s.admitted 1).map Entry.origin)) =
      some ([6, 7], [.intake]) := by decide +kernel
  obtain ⟨s, hs, hconn⟩ := Option.map_eq_some_iff.1 hrun
  obtain ⟨hcalls, horigin⟩ := Prod.mk.inj hconn
  have hws : ∀ x ∈ s.admitted 1, x.origin ≠ .tcp := by
    intro x hx htcp
    have hmem := horigin ▸ List.mem_map_of_mem (f := Entry.origin) hx
    rw [htcp] at hmem
    exact absurd hmem (by decide)
  exact ⟨s, hs, hcalls, (rate_bounded keys_empty hs (by decide) hws (hcalls ▸ by decide) 6).1⟩

/-! ## Where the server dials -/

/-- The nodes that paths lead to: those attested, and in a build with the feature the others. -/
def Setup.nodes (c : Setup) : List NablaNode := c.cfg.nabla ++ c.fatmama.getD []

theorem dial_dialled {name set : String} {nodes : List NablaNode} {idx : ℕ} :
    ∀ node ∈ (dial s k name nodes idx set).dialled, node ∈ s.dialled ∨ node ∈ nodes := by
  unfold dial
  cases hnode : nodes[idx]? with
  | none => exact fun node h => Or.inl h
  | some n =>
    intro node h
    rcases List.mem_append.1 h with h | h
    · exact Or.inl h
    · rw [List.mem_singleton.1 h]
      exact Or.inr (List.mem_of_getElem? hnode)

theorem onBinary_dialled (c : Setup) (s : State) (k : ℕ) (o : Origin) (bytes : Bytes) (now : ℕ) :
    (onBinary c s k o bytes now).dialled = s.dialled := by
  unfold onBinary
  split
  · rfl
  · split
    · rfl
    · split <;> rfl

theorem step_dialled (ht : step c s e = some t) :
    ∀ node ∈ t.dialled, node ∈ s.dialled ∨ node ∈ c.nodes := by
  have hold : t.dialled = s.dialled → ∀ node ∈ t.dialled, node ∈ s.dialled ∨ node ∈ c.nodes :=
    fun h node hnode => Or.inl (h ▸ hnode)
  cases e with
  | upgraded k path random now dir =>
    rw [step] at ht
    split_ifs at ht
    obtain rfl := Option.some.inj ht
    intro node hnode
    unfold onUpgraded at hnode
    split at hnode
    · exact Or.inl hnode
    · split at hnode
      · split_ifs at hnode <;> exact Or.inl hnode
      · exact Or.inl hnode
    · exact (dial_dialled node hnode).imp_right fun h => List.mem_append_left _ h
    · exact (dial_dialled node hnode).imp_right fun h => List.mem_append_right _ h
    · exact Or.inl hnode
  | head k bytes =>
    rw [step] at ht
    split_ifs at ht
    obtain rfl := Option.some.inj ht
    obtain ⟨task, hhead⟩ := onHead_task c s k bytes
    exact hold (by rw [hhead]; rfl)
  | accept k =>
    rw [step] at ht
    split_ifs at ht
    obtain rfl := Option.some.inj ht
    exact hold rfl
  | body k bytes =>
    rw [step] at ht
    split at ht
    · split_ifs at ht
      obtain rfl := Option.some.inj ht
      exact hold rfl
    · cases ht
  | message k m now =>
    cases hwaiting : (s.conns k).task with
    | waiting o =>
      cases m with
      | binary bytes =>
        simp only [step, hwaiting] at ht
        obtain rfl := Option.some.inj ht
        exact hold (onBinary_dialled c s k o bytes now)
      | other | close =>
        simp only [step, hwaiting] at ht
        obtain rfl := Option.some.inj ht
        exact hold rfl
    | idle | head | handshake | frame | delivering | tunnel | ended =>
      simp only [step, hwaiting] at ht
      cases ht
  | closed k | fails k text | draw k secs nanos =>
    rw [step] at ht
    split at ht
    all_goals
      first
      | (obtain rfl := Option.some.inj ht
         exact hold rfl)
      | cases ht
  | io k result =>
    rw [step] at ht
    split at ht
    · obtain ⟨task, -, -, hdialled⟩ := onIo_task ht
      exact hold hdialled
    · cases ht
  | take name =>
    obtain ⟨bytes, -, rfl⟩ := Option.map_eq_some_iff.1 ht
    exact hold rfl

/-- Whatever its clients send, the server dials nodes of its configured lists only. -/
theorem dials_attested {es : List Event} (hr : run (step c) (started c inbox) es = some s) :
    ∀ node ∈ s.dialled, node ∈ c.nodes :=
  run_preserves (I := fun u => ∀ node ∈ u.dialled, node ∈ c.nodes)
    (fun _ _ _ hu he node hnode => (step_dialled he node hnode).elim (hu node) id)
    (fun _ hnode => absurd hnode List.not_mem_nil) hr

end Tot.Server
