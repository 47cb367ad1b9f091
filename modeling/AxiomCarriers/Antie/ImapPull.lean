import AxiomCarriers.Antie.Imap

/-!
# Pulling mail over IMAP

`deliver_carrier_messages` over an `ImapCarrier`.  The reply to a FETCH is untagged lines, with
literals in them, and the tagged line that ends it; `Reply.render` gives its bytes.  On a reply
whose lines can be told from its literals (`Plain`) `fetch_message` returns the literals, one after
the other, whatever the status (`fetchMessage_render`).

The server keeps the flags that STORE sets, and EXPUNGE removes whatever carries one: a message
whose STORE was carried out, though its OK was lost, goes with the next session that comes to
EXPUNGE, in this pull or in a later one (`removed_iff`).  `pull_safe_iff` says for which replies the
pulls of a run keep the promise that only delivered mail is deleted.
-/

namespace Antie.Imap

open Bytes Utf8 Text

/-! ## Replies of the server -/

/-- A piece of a reply line. -/
inductive Piece
  | text (b : Bytes)
  | literal (b : Bytes)
  deriving DecidableEq

def Piece.render : Piece → Bytes
  | .text b => b
  | .literal b => marker b.length ++ crlf ++ b

def literals (ps : List Piece) : List Bytes :=
  ps.filterMap fun p => match p with
    | .text _ => none
    | .literal b => some b

/-- A string of the protocol. -/
inductive Value
  | nil
  | quoted (s : Bytes)
  | literal (b : Bytes)
  deriving DecidableEq

def Value.pieces : Value → List Piece
  | .nil => [.text (ascii "NIL")]
  | .quoted s => [.text (34 :: s.flatMap (fun b => if b = 92 ∨ b = 34 then [92, b] else [b]) ++ [34])]
  | .literal b => [.literal b]

/-- The bytes a string stands for, none for NIL. -/
def Value.content : Value → Option Bytes
  | .nil => none
  | .quoted s => some s
  | .literal b => some b

/-- An item of a FETCH response. -/
inductive Item
  | uid (n : ℕ)
  | body (v : Value)
  /-- Another part of the message, such as `BODY[HEADER]`. -/
  | part (name : Bytes) (v : Value)
  /-- An item without a string, such as `FLAGS (\Seen)`. -/
  | attribute (text : Bytes)
  deriving DecidableEq

def Item.pieces : Item → List Piece
  | .uid n => [.text (ascii "UID " ++ decimal n)]
  | .body v => .text (ascii "BODY[] ") :: v.pieces
  | .part name v => .text (name ++ [32]) :: v.pieces
  | .attribute text => [.text text]

/-- An untagged response. -/
inductive Untagged
  | fetch (seq : ℕ) (items : List Item)
  | other (text : Bytes)
  deriving DecidableEq

def Untagged.pieces : Untagged → List Piece
  | .fetch seq items => .text (ascii "* " ++ decimal seq ++ ascii " FETCH (") ::
      ((items.map Item.pieces).intersperse [.text [32]]).flatten ++ [.text [41]]
  | .other text => [.text (ascii "* " ++ text)]

inductive Status
  | ok
  | no
  | bad
  deriving DecidableEq

def Status.word : Status → Bytes
  | .ok => ascii "OK"
  | .no => ascii "NO"
  | .bad => ascii "BAD"

structure Reply where
  untagged : List Untagged
  status : Status
  text : Bytes
  deriving DecidableEq

/-- The tagged line that ends the reply, without its CRLF. -/
def Reply.tagged (r : Reply) (tag : Bytes) : Bytes := tag ++ (32 :: r.status.word ++ 32 :: r.text)

/-- The bytes of the reply to the command with the tag. -/
def Reply.render (r : Reply) (tag : Bytes) : Bytes :=
  (r.untagged.map fun u => (u.pieces.map Piece.render).flatten ++ crlf).flatten ++
    (r.tagged tag ++ crlf)

def Reply.literals (r : Reply) : List Bytes := r.untagged.flatMap fun u => Imap.literals u.pieces

/-- The response gives items of the message with the UID. -/
def names (uid : Bytes) (items : List Item) : Bool :=
  items.any fun i => match i with
    | .uid n => decimal n = uid
    | _ => false

/-- The body that the reply gives for the UID. -/
def Reply.body? (r : Reply) (uid : Bytes) : Option Bytes :=
  r.untagged.findSome? fun u => match u with
    | .fetch _ items => if names uid items then
        items.findSome? fun i => match i with
          | .body v => v.content
          | _ => none
      else none
    | .other _ => none

/-- Lines that can be told from literals, from a line on that begins with `acc`: outside the
literals no line has a bare LF, begins with the tag, or ends as if it announced a literal. -/
def Plain (tag : Bytes) : Bytes → List Piece → Prop
  | acc, [] => LF ∉ acc ∧ ¬ tag <+: trim (acc ++ crlf) ∧ announced (acc ++ crlf) = none
  | acc, .text b :: ps => Plain tag (acc ++ b) ps
  | acc, .literal b :: ps => b.length < 2 ^ 64 ∧ LF ∉ acc ∧
      ¬ tag <+: trim (acc ++ marker b.length ++ crlf) ∧ Plain tag [] ps

instance decidablePlain (tag : Bytes) : ∀ acc ps, Decidable (Plain tag acc ps)
  | _, [] => inferInstanceAs (Decidable (_ ∧ _ ∧ _))
  | acc, .text b :: ps => decidablePlain tag (acc ++ b) ps
  | _, .literal _ :: ps =>
    letI := decidablePlain tag [] ps
    inferInstanceAs (Decidable (_ ∧ _ ∧ _ ∧ _))

/-- A reply whose lines can be told from its literals. -/
def Reply.Plain (r : Reply) (tag : Bytes) : Prop :=
  (∀ u ∈ r.untagged, Imap.Plain tag [] u.pieces) ∧ LF ∉ r.text

instance (r : Reply) (tag : Bytes) : Decidable (r.Plain tag) := inferInstanceAs (Decidable (_ ∧ _))

/-! ## What `fetch_message` makes of a reply -/

/-- The lines of a reply, from a line on that begins with `acc`, are UTF-8, and there is a buffer
for each of its literals. -/
def Readable (room : ℕ) : Bytes → List Piece → Prop
  | acc, [] => Valid (acc ++ crlf)
  | acc, .text b :: ps => Readable room (acc ++ b) ps
  | acc, .literal b :: ps =>
    Valid (acc ++ marker b.length ++ crlf) ∧ b.length ≤ room ∧ Readable room [] ps

def Reply.Readable (r : Reply) (room : ℕ) (tag : Bytes) : Prop :=
  (∀ u ∈ r.untagged, Imap.Readable room [] u.pieces) ∧ Valid (r.tagged tag ++ crlf)

variable {room : ℕ}

/-- A line with its literals adds the literals to what the rest of the reply gives. -/
theorem fetchMessage_pieces {tag uid acc r raw : Bytes} {ps : List Piece} (hp : Plain tag acc ps) :
    fetchMessage room tag uid (acc ++ ((ps.map Piece.render).flatten ++ (crlf ++ r))) = .ok raw ↔
      Readable room acc ps ∧
        ∃ raw', fetchMessage room tag uid r = .ok raw' ∧ raw = (literals ps).flatten ++ raw' := by
  induction ps generalizing acc raw with
  | nil =>
    obtain ⟨hlf, htag, hann⟩ := hp
    have hline : acc ++ (([].map Piece.render).flatten ++ (crlf ++ r)) =
        (acc ++ [CR]) ++ LF :: r := by simp [crlf]
    have hcrlf : acc ++ [CR] ++ [LF] = acc ++ crlf := by simp [crlf]
    rw [hline, fetchMessage_line tag uid (by simpa [hlf] using by decide), hcrlf, hann,
      if_neg htag]
    by_cases hv : Valid (acc ++ crlf) <;> simp [Readable, literals, hv]
  | cons p ps ih =>
    cases p with
    | text b =>
      have hlit : literals (.text b :: ps) = literals ps := rfl
      rw [Readable, hlit, ← @ih (acc ++ b) raw hp]
      simp [Piece.render]
    | literal b =>
      obtain ⟨hsize, hlf, htag, hps⟩ := hp
      have hline : acc ++ (((Piece.literal b :: ps).map Piece.render).flatten ++ (crlf ++ r)) =
          (acc ++ marker b.length ++ [CR]) ++
            LF :: (b ++ ((ps.map Piece.render).flatten ++ (crlf ++ r))) := by
        simp [Piece.render, crlf]
      have hcrlf : acc ++ marker b.length ++ [CR] ++ [LF] = acc ++ marker b.length ++ crlf := by
        simp [crlf]
      have hshort : ¬ (b ++ ((ps.map Piece.render).flatten ++ (crlf ++ r))).length < b.length := by
        simp
      rw [hline,
        fetchMessage_line tag uid (by simpa [hlf, lf_notMem_marker] using by decide), hcrlf,
        announced_marker acc hsize, if_neg htag]
      simp only [List.drop_left, List.take_left, if_neg hshort]
      by_cases hv : Valid (acc ++ marker b.length ++ crlf)
      · rw [if_neg (not_not.2 hv)]
        by_cases hroom : b.length ≤ room
        · rw [if_neg (Nat.not_lt.2 hroom), Except.map_eq_ok_iff]
          constructor
          · rintro ⟨raw₁, hf, rfl⟩
            obtain ⟨hread, raw', hr, rfl⟩ := (@ih [] raw₁ hps).1 hf
            exact ⟨⟨hv, hroom, hread⟩, raw', hr, by simp [literals]⟩
          · rintro ⟨⟨-, -, hread⟩, raw', hr, rfl⟩
            exact ⟨_, (@ih [] _ hps).2 ⟨hread, raw', hr, rfl⟩, by simp [literals]⟩
        · rw [if_pos (Nat.lt_of_not_le hroom)]
          exact iff_of_false (by simp) fun h => hroom h.1.2.1
      · rw [if_pos hv]
        exact iff_of_false (by simp) fun h => hv h.1.1

theorem nextTag_word (n : ℕ) : ∀ b ∈ nextTag n, b < 128 ∧ ¬ isWs b := by
  intro b hb
  simp only [nextTag, List.mem_cons, List.mem_append, List.mem_replicate] at hb
  rcases hb with rfl | ⟨-, rfl⟩ | hb
  · decide
  · decide
  · exact decimal_word _ b hb

theorem fetchMessage_untagged {tag uid rest raw : Bytes} {us : List Untagged}
    (hp : ∀ u ∈ us, Plain tag [] u.pieces) :
    fetchMessage room tag uid
        ((us.map fun u => (u.pieces.map Piece.render).flatten ++ crlf).flatten ++ rest) = .ok raw ↔
      (∀ u ∈ us, Readable room [] u.pieces) ∧ ∃ raw', fetchMessage room tag uid rest = .ok raw' ∧
        raw = (us.flatMap fun u => literals u.pieces).flatten ++ raw' := by
  induction us generalizing raw with
  | nil => simp
  | cons u us ih =>
    have hu := hp u List.mem_cons_self
    have hus := fun raw => @ih raw fun v hv => hp v (List.mem_cons_of_mem _ hv)
    rw [List.map_cons, List.flatten_cons, List.append_assoc, List.append_assoc]
    constructor
    · intro h
      obtain ⟨hread, raw₁, hraw₁, rfl⟩ := (fetchMessage_pieces hu).1 h
      obtain ⟨hreads, raw', hr, rfl⟩ := (hus raw₁).1 hraw₁
      exact ⟨List.forall_mem_cons.2 ⟨hread, hreads⟩, raw', hr, by simp⟩
    · rintro ⟨hreads, raw', hr, rfl⟩
      obtain ⟨hread, hreads⟩ := List.forall_mem_cons.1 hreads
      exact (fetchMessage_pieces hu).2
        ⟨hread, _, (hus _).2 ⟨hreads, raw', hr, rfl⟩, by simp⟩

theorem fetchMessage_tagged (n : ℕ) {uid raw : Bytes} {r : Reply} (htext : LF ∉ r.text) :
    fetchMessage room (nextTag n) uid (r.tagged (nextTag n) ++ crlf) = .ok raw ↔
      Valid (r.tagged (nextTag n) ++ crlf) ∧ raw = [] := by
  have hcrlf : r.tagged (nextTag n) ++ crlf = (r.tagged (nextTag n) ++ [CR]) ++ [LF] := by
    simp [crlf]
  have htag : nextTag n <+: trim ((r.tagged (nextTag n) ++ [CR]) ++ [LF]) := by
    rw [Reply.tagged, List.append_assoc, List.append_assoc]
    exact prefix_trim (nextTag_word n) _
  have hlf : LF ∉ r.tagged (nextTag n) ++ [CR] := by
    have hword : LF ∉ r.status.word := by cases r.status <;> simp [Status.word, ascii, LF]
    have hn : LF ∉ nextTag n := fun hm => absurd (nextTag_word n _ hm).2 (by decide)
    simpa [Reply.tagged, hword, hn, htext] using by decide
  rw [hcrlf, fetchMessage_line (nextTag n) uid hlf [], if_pos htag]
  by_cases hv : Valid (r.tagged (nextTag n) ++ [CR] ++ [LF])
  · rw [if_neg (not_not.2 hv), Except.ok.injEq, and_iff_right hv]
    exact eq_comm
  · rw [if_pos hv]
    exact iff_of_false (by simp) fun h => hv h.1

/-- `fetch_message` returns the literals of the reply, whatever its status. -/
theorem fetchMessage_render {n : ℕ} {uid raw : Bytes} {r : Reply} (hp : r.Plain (nextTag n)) :
    fetchMessage room (nextTag n) uid (r.render (nextTag n)) = .ok raw ↔
      r.Readable room (nextTag n) ∧ raw = r.literals.flatten := by
  rw [Reply.render, fetchMessage_untagged hp.1, Reply.Readable, and_assoc]
  refine and_congr_right fun _ => ?_
  simp only [fetchMessage_tagged n hp.2]
  constructor
  · rintro ⟨raw', ⟨hv, rfl⟩, rfl⟩
    exact ⟨hv, List.append_nil _⟩
  · rintro ⟨hv, rfl⟩
    exact ⟨[], ⟨hv, rfl⟩, (List.append_nil _).symm⟩

/-! ## Delivering what was fetched -/

/-- What becomes of a message: whether the inbox takes it, the session that would delete it, and what
the server carries out of its commands, whatever it answers. -/
structure Handling where
  written : Bool
  marking : Marking
  stores : Bool
  expunges : Bool
  /-- The UIDs that carry the flag at EXPUNGE and were not flagged by the pulls of the run. -/
  others : List Bytes

/-- A pull: the replies of the server, and what becomes of each message. -/
structure Transcript where
  carrier : ImapCarrier
  /-- The largest literal that there is a buffer for. -/
  room : ℕ
  tag : ℕ
  opening : Opening
  search : Bytes
  fetches : List Reply
  handling : ℕ → Handling

inductive Fate
  | dropped
  | staged
  | failed
  deriving DecidableEq

/-- A message of the pull, its fate, and the commands sent to delete it. -/
structure Outcome where
  msg : IncomingMessage Bytes
  fate : Fate
  sent : List Command
  deriving DecidableEq

/-- One round of the loop of `deliver_carrier_messages`; `drops` is the entropy filter. -/
def deliver (drops : Bytes → Bool) (c : ImapCarrier) (h : Handling) (msg : IncomingMessage Bytes) :
    Outcome :=
  if drops msg.raw then ⟨msg, .dropped, markProcessed c h.marking⟩
  else if h.written then ⟨msg, .staged, markProcessed c h.marking⟩
  else ⟨msg, .failed, []⟩

/-- `deliver_carrier_messages`. -/
def pull (drops : Bytes → Bool) (t : Transcript) : List Outcome :=
  match checkNew t.room t.carrier t.tag t.opening t.search (t.fetches.map Reply.render) with
  | .error _ => []
  | .ok messages => messages.mapIdx fun k msg => deliver drops t.carrier (t.handling k) msg

/-! ## The flags on the server -/

/-- A message of a pull, with the reply to its FETCH and what becomes of it. -/
structure Turn where
  outcome : Outcome
  reply : Reply
  handling : Handling

def turns (drops : Bytes → Bool) (t : Transcript) : List Turn :=
  ((pull drops t).zip t.fetches).mapIdx fun k p => ⟨p.1, p.2, t.handling k⟩

/-- STORE flags the message on the server. -/
def Turn.Flags (s : Turn) : Prop := .store ∈ s.outcome.sent ∧ s.handling.stores

/-- EXPUNGE is sent and carried out. -/
def Turn.Expunges (s : Turn) : Prop := .expunge ∈ s.outcome.sent ∧ s.handling.expunges

instance (s : Turn) : Decidable s.Flags := inferInstanceAs (Decidable (_ ∧ _))

instance (s : Turn) : Decidable s.Expunges := inferInstanceAs (Decidable (_ ∧ _))

/-- A session on a server where the pulls have flagged these messages: what is flagged after it, and
what it removes.  EXPUNGE removes every message that carries the flag, whichever session set it. -/
def session (flagged : List Turn) (s : Turn) : List Turn × List Turn :=
  let flagged := if s.Flags then s :: flagged else flagged
  if s.Expunges then ([], flagged) else (flagged, [])

/-- The messages that the sessions remove, one session after another. -/
def removed : List Turn → List Turn → List Turn
  | _, [] => []
  | flagged, s :: ss => (session flagged s).2 ++ removed (session flagged s).1 ss

/-- The pull leaves the message on the server: its FETCH was refused or gave no body, or the inbox
does not take it. -/
def Turn.Left (s : Turn) : Prop :=
  s.reply.status ≠ .ok ∨ s.reply.body? s.outcome.msg.id = none ∨ s.outcome.fate = .failed

/-- The pulls destroy no unread mail: what the server removes because they flagged it as delivered
was staged as the body the server sent for the UID; nothing is flagged whose FETCH was refused or
gave no body; and no message that a pull leaves is removed in it by a flag from elsewhere. -/
structure Safe (drops : Bytes → Bool) (run : List Transcript) : Prop where
  delivered : ∀ s ∈ removed [] (run.flatMap (turns drops)), s.outcome.fate = .staged →
    s.reply.body? s.outcome.msg.id = some s.outcome.msg.raw
  refused : ∀ t ∈ run, ∀ s ∈ turns drops t,
    s.reply.status ≠ .ok ∨ s.reply.body? s.outcome.msg.id = none → s.outcome.sent = []
  left : ∀ t ∈ run, ∀ s ∈ turns drops t, s.Left → ∀ e ∈ turns drops t, e.Expunges →
    s.outcome.msg.id ∉ e.handling.others

/-- A message is removed once its STORE was carried out, by the first EXPUNGE from then on. -/
theorem mem_removed {flagged ss : List Turn} {s : Turn} :
    s ∈ removed flagged ss ↔ (s ∈ flagged ∧ ∃ e ∈ ss, e.Expunges) ∨
      ∃ before after, ss = before ++ s :: after ∧ s.Flags ∧ ∃ e ∈ s :: after, e.Expunges := by
  induction ss generalizing flagged with
  | nil => simp [removed]
  | cons e ss ih =>
    have hcons : (∃ before after, e :: ss = before ++ s :: after ∧ s.Flags ∧
        ∃ d ∈ s :: after, d.Expunges) ↔
        (e = s ∧ s.Flags ∧ ∃ d ∈ e :: ss, d.Expunges) ∨
          ∃ before after, ss = before ++ s :: after ∧ s.Flags ∧ ∃ d ∈ s :: after, d.Expunges := by
      constructor
      · rintro ⟨_ | ⟨d, before⟩, after, heq, hrest⟩
        · obtain ⟨rfl, rfl⟩ := List.cons.inj heq
          exact Or.inl ⟨rfl, hrest⟩
        · obtain ⟨rfl, rfl⟩ := List.cons.inj heq
          exact Or.inr ⟨before, after, rfl, hrest⟩
      · rintro (⟨rfl, hrest⟩ | ⟨before, after, rfl, hrest⟩)
        · exact ⟨[], ss, rfl, hrest⟩
        · exact ⟨e :: before, after, rfl, hrest⟩
    have hflagged : s ∈ (if e.Flags then e :: flagged else flagged) ↔
        s ∈ flagged ∨ e = s ∧ s.Flags := by
      split_ifs with hf
      · rw [List.mem_cons, or_comm]
        exact or_congr_right ⟨fun h => ⟨h.symm, h ▸ hf⟩, fun h => h.1.symm⟩
      · refine (or_iff_left ?_).symm
        rintro ⟨rfl, h⟩
        exact hf h
    rw [removed, List.mem_append, ih, hcons]
    by_cases he : e.Expunges
    · -- the session removes what is flagged, and leaves no flag
      have hsession : session flagged e = ([], if e.Flags then e :: flagged else flagged) :=
        if_pos he
      simp only [hsession, hflagged, List.not_mem_nil, false_and, false_or,
        List.exists_mem_cons_iff, he, true_or, and_true, or_assoc]
    · have hsession : session flagged e = (if e.Flags then e :: flagged else flagged, []) :=
        if_neg he
      simp only [hsession, hflagged, List.not_mem_nil, false_or, List.exists_mem_cons_iff, he,
        or_and_right, and_assoc, or_assoc]

/-- The place of a turn in a run. -/
theorem turns_split {drops : Bytes → Bool} {run : List Transcript} {s : Turn}
    {before after : List Turn} :
    run.flatMap (turns drops) = before ++ s :: after ↔
      ∃ earlier t later b a, run = earlier ++ t :: later ∧ turns drops t = b ++ s :: a ∧
        before = earlier.flatMap (turns drops) ++ b ∧ after = a ++ later.flatMap (turns drops) := by
  induction run generalizing before with
  | nil => simp
  | cons t run ih =>
    rw [List.flatMap_cons, List.append_eq_append_iff]
    constructor
    · rintro (⟨c, rfl, hc⟩ | ⟨c, hb, hc⟩)
      · obtain ⟨earlier, u, later, b, a, rfl, hu, rfl, rfl⟩ := ih.1 hc
        exact ⟨t :: earlier, u, later, b, a, rfl, hu, by simp, rfl⟩
      · rcases c with _ | ⟨d, c⟩
        · obtain ⟨earlier, u, later, b, a, rfl, hu, hnil, rfl⟩ := (@ih []).1 hc.symm
          refine ⟨t :: earlier, u, later, b, a, rfl, hu, ?_, rfl⟩
          rw [List.flatMap_cons, List.append_assoc, ← hnil, hb, List.append_nil, List.append_nil]
        · obtain ⟨rfl, rfl⟩ := List.cons.inj hc
          exact ⟨[], t, run, before, c, rfl, hb, rfl, rfl⟩
    · rintro ⟨_ | ⟨v, earlier⟩, u, later, b, a, heq, hu, rfl, rfl⟩
      · obtain ⟨rfl, rfl⟩ := List.cons.inj heq
        exact Or.inr ⟨s :: a, hu, by simp⟩
      · obtain ⟨rfl, rfl⟩ := List.cons.inj heq
        refine Or.inl ⟨earlier.flatMap (turns drops) ++ b, by simp, ?_⟩
        exact ih.2 ⟨earlier, u, later, b, a, rfl, hu, rfl, rfl⟩

/-! ## What the pull deletes -/

/-- Every UID has its reply, and the replies can be read. -/
def Answers (room : ℕ) : ℕ → List Bytes → List Reply → Prop
  | _, [], _ => True
  | _, _ :: _, [] => False
  | n, _ :: uids, r :: rs => r.Readable room (nextTag n) ∧ Answers room (n + 1) uids rs

/-- The messages are the literals of the replies. -/
theorem fetchAll_literals {n : ℕ} {uids : List Bytes} {rs : List Reply}
    {messages : List (IncomingMessage Bytes)}
    (hp : ∀ (k : ℕ) r, rs[k]? = some r → r.Plain (nextTag (n + k))) :
    fetchAll room n uids (rs.map Reply.render) = .ok messages ↔
      Answers room n uids rs ∧
        messages = List.zipWith (fun uid r => ⟨uid, r.literals.flatten⟩) uids rs := by
  induction uids generalizing n rs messages with
  | nil => simp [fetchAll, Answers, eq_comm]
  | cons uid uids ih =>
    cases rs with
    | nil => simp [fetchAll, fetchMessage, fetchLoop, Answers, bind, Except.bind]
    | cons r rs =>
      have hr : r.Plain (nextTag n) := hp 0 r rfl
      have hrs : ∀ (k : ℕ) r, rs[k]? = some r → r.Plain (nextTag (n + 1 + k)) := by
        intro k r hk
        rw [Nat.add_right_comm]
        exact hp (k + 1) r hk
      simp only [fetchAll, List.map_cons, List.head?_cons, Option.map_some, Option.getD_some,
        List.tail_cons, Except.bind_eq_ok_iff, fetchMessage_render hr, @ih _ rs _ hrs, Answers,
        List.zipWith_cons_cons]
      constructor
      · rintro ⟨raw, ⟨hread, rfl⟩, rest, ⟨hans, rfl⟩, h⟩
        exact ⟨⟨hread, hans⟩, (Except.ok.inj h).symm⟩
      · rintro ⟨⟨hread, hans⟩, rfl⟩
        exact ⟨_, ⟨hread, rfl⟩, _, ⟨hans, rfl⟩, rfl⟩

/-- `check_new` comes to its end: its session opens, the search finds these UIDs, and the reply to
every FETCH can be read. -/
def Transcript.Finds (t : Transcript) (uids : List Bytes) : Prop :=
  openSession t.carrier t.tag t.opening = .ok () ∧
    ∃ found, imapCommand (nextTag (t.tag + 2)) t.search = .ok found ∧ searchUids found = uids ∧
      Answers t.room (t.tag + 3) uids t.fetches

/-- The `k`-th message of the pull has this UID, and its FETCH this reply. -/
def Transcript.Gets (t : Transcript) (k : ℕ) (uid : Bytes) (r : Reply) : Prop :=
  ∃ uids, t.Finds uids ∧ uids[k]? = some uid ∧ t.fetches[k]? = some r

/-- The session of `mark_processed` opens, so that STORE is sent. -/
def Marking.Opens (c : ImapCarrier) (m : Marking) : Prop := openSession c m.tag m.opening = .ok ()

/-- STORE is answered OK, so that EXPUNGE is sent. -/
def Marking.Stored (m : Marking) : Prop := ∃ ls, imapCommand (nextTag (m.tag + 2)) m.store = .ok ls

/-- The `k`-th message is dropped or written to the inbox, and STORE is sent for it. -/
def Transcript.Takes (drops : Bytes → Bool) (t : Transcript) (k : ℕ) (uid : Bytes) (r : Reply) : Prop :=
  t.Gets k uid r ∧ (drops r.literals.flatten ∨ (t.handling k).written) ∧
    (t.handling k).marking.Opens t.carrier

/-- EXPUNGE is sent for the `k`-th message, and carried out. -/
def Transcript.Expunges (drops : Bytes → Bool) (t : Transcript) (k : ℕ) : Prop :=
  ∃ uid r, t.Takes drops k uid r ∧ (t.handling k).marking.Stored ∧ (t.handling k).expunges

/-- Where STORE is sent, the FETCH was answered OK with a body.  Where it is carried out for a message
that was staged, and an EXPUNGE is carried out in that session or in a later one, the literals of the
reply are, one after the other, that body.  And no EXPUNGE finds a flag from elsewhere on a message
that its pull leaves. -/
structure RepliesSafe (drops : Bytes → Bool) (run : List Transcript) : Prop where
  bodies : ∀ t ∈ run, ∀ k uid r, t.Takes drops k uid r → r.status = .ok ∧ (r.body? uid).isSome
  whole : ∀ earlier t later, run = earlier ++ t :: later → ∀ k uid r, t.Takes drops k uid r →
    ¬ drops r.literals.flatten → (t.handling k).stores →
      (∃ j, k ≤ j ∧ t.Expunges drops j) ∨ (∃ u ∈ later, ∃ j, u.Expunges drops j) →
        r.body? uid = some r.literals.flatten
  others : ∀ t ∈ run, ∀ k uid r, t.Gets k uid r →
    r.status ≠ .ok ∨ r.body? uid = none ∨ ¬ drops r.literals.flatten ∧ ¬ (t.handling k).written →
      ∀ j, t.Expunges drops j → uid ∉ (t.handling j).others

theorem store_mem_markProcessed {c : ImapCarrier} {m : Marking} :
    .store ∈ markProcessed c m ↔ m.Opens c := by
  unfold markProcessed Marking.Opens
  cases openSession c m.tag m.opening with
  | error e => simp
  | ok _ => cases imapCommand (nextTag (m.tag + 2)) m.store <;> simp

theorem markProcessed_eq_nil {c : ImapCarrier} {m : Marking} (h : ¬ m.Opens c) :
    markProcessed c m = [] := by
  unfold markProcessed
  unfold Marking.Opens at h
  cases ho : openSession c m.tag m.opening with
  | error e => rfl
  | ok _ => exact absurd ho h

theorem expunge_mem_markProcessed {c : ImapCarrier} {m : Marking} :
    .expunge ∈ markProcessed c m ↔ m.Opens c ∧ m.Stored := by
  unfold markProcessed Marking.Opens Marking.Stored
  cases openSession c m.tag m.opening with
  | error e => simp
  | ok _ => cases imapCommand (nextTag (m.tag + 2)) m.store <;> simp

theorem deliver_msg (drops : Bytes → Bool) (c : ImapCarrier) (h : Handling)
    (msg : IncomingMessage Bytes) : (deliver drops c h msg).msg = msg := by
  unfold deliver
  split_ifs <;> rfl

theorem deliver_staged {drops : Bytes → Bool} {c : ImapCarrier} {h : Handling}
    {msg : IncomingMessage Bytes} :
    (deliver drops c h msg).fate = .staged ↔ ¬ drops msg.raw ∧ h.written := by
  unfold deliver
  by_cases hd : drops msg.raw
  · simp [hd]
  · by_cases hw : h.written <;> simp [hd, hw]

theorem deliver_failed {drops : Bytes → Bool} {c : ImapCarrier} {h : Handling}
    {msg : IncomingMessage Bytes} :
    (deliver drops c h msg).fate = .failed ↔ ¬ drops msg.raw ∧ ¬ h.written := by
  unfold deliver
  by_cases hd : drops msg.raw
  · simp [hd]
  · by_cases hw : h.written <;> simp [hd, hw]

theorem deliver_sent {drops : Bytes → Bool} {c : ImapCarrier} {h : Handling}
    {msg : IncomingMessage Bytes} :
    (deliver drops c h msg).sent =
      if drops msg.raw ∨ h.written then markProcessed c h.marking else [] := by
  unfold deliver
  by_cases hd : drops msg.raw
  · simp [hd]
  · by_cases hw : h.written <;> simp [hd, hw]

section

variable {drops : Bytes → Bool} {t : Transcript}

/-- The turn of a message with this reply. -/
def Transcript.turn (drops : Bytes → Bool) (t : Transcript) (k : ℕ) (uid : Bytes) (r : Reply) : Turn :=
  ⟨deliver drops t.carrier (t.handling k) ⟨uid, r.literals.flatten⟩, r, t.handling k⟩

@[simp] theorem turn_id (k : ℕ) (uid : Bytes) (r : Reply) :
    (t.turn drops k uid r).outcome.msg.id = uid := by rw [Transcript.turn, deliver_msg]

@[simp] theorem turn_raw (k : ℕ) (uid : Bytes) (r : Reply) :
    (t.turn drops k uid r).outcome.msg.raw = r.literals.flatten := by rw [Transcript.turn, deliver_msg]

/-- The turns of the pull: the messages are the literals of the replies. -/
theorem turns_getElem? (hp : ∀ (k : ℕ) r, t.fetches[k]? = some r → r.Plain (nextTag (t.tag + 3 + k)))
    {k : ℕ} {s : Turn} :
    (turns drops t)[k]? = some s ↔ ∃ uid r, t.Gets k uid r ∧ t.turn drops k uid r = s := by
  have hcheck : ∀ messages,
      checkNew t.room t.carrier t.tag t.opening t.search (t.fetches.map Reply.render) = .ok messages ↔
        ∃ uids, t.Finds uids ∧
          messages = List.zipWith (fun uid r => ⟨uid, r.literals.flatten⟩) uids t.fetches := by
    intro messages
    simp only [checkNew, Except.bind_eq_ok_iff, fetchAll_literals hp, Transcript.Finds]
    constructor
    · rintro ⟨⟨⟩, hopen, found, hfound, hans, he⟩
      exact ⟨_, ⟨hopen, found, hfound, rfl, hans⟩, he⟩
    · rintro ⟨uids, ⟨hopen, found, hfound, rfl, hans⟩, he⟩
      exact ⟨(), hopen, found, hfound, hans, he⟩
  unfold turns pull
  cases hc : checkNew t.room t.carrier t.tag t.opening t.search (t.fetches.map Reply.render) with
  | error e =>
    apply iff_of_false (by simp)
    rintro ⟨uid, r, ⟨uids, hfinds, -⟩, -⟩
    have := hc.symm.trans ((hcheck _).2 ⟨uids, hfinds, rfl⟩)
    simp at this
  | ok messages =>
    obtain ⟨uids, hfinds, rfl⟩ := (hcheck messages).1 hc
    simp only [List.getElem?_mapIdx, Option.map_eq_some_iff, List.getElem?_zip_eq_some]
    constructor
    · rintro ⟨⟨o, r⟩, ⟨⟨msg, hmsg, rfl⟩, hr⟩, rfl⟩
      obtain ⟨uid, r', huid, hr', rfl⟩ := List.getElem?_zipWith_eq_some.1 hmsg
      obtain rfl : r = r' := Option.some.inj (hr.symm.trans hr')
      exact ⟨uid, r, ⟨uids, hfinds, huid, hr⟩, rfl⟩
    · rintro ⟨uid, r, ⟨uids', hfinds', huid, hr⟩, rfl⟩
      have hmsgs := Except.ok.inj (hc.symm.trans ((hcheck _).2 ⟨uids', hfinds', rfl⟩))
      refine ⟨(_, r), ⟨⟨⟨uid, r.literals.flatten⟩, ?_, rfl⟩, hr⟩, rfl⟩
      rw [hmsgs]
      exact List.getElem?_zipWith_eq_some.2 ⟨uid, r, huid, hr, rfl⟩

theorem turn_sent (k : ℕ) (uid : Bytes) (r : Reply) :
    (t.turn drops k uid r).outcome.sent =
      if drops r.literals.flatten ∨ (t.handling k).written then
        markProcessed t.carrier (t.handling k).marking else [] := deliver_sent

/-- STORE is sent for the messages that the pull takes, and nothing is sent for others. -/
theorem turn_sent_eq_nil {k : ℕ} {uid : Bytes} {r : Reply} (hgets : t.Gets k uid r) :
    (t.turn drops k uid r).outcome.sent = [] ↔ ¬ t.Takes drops k uid r := by
  rw [turn_sent, Transcript.Takes, and_iff_right hgets]
  split_ifs with htaken
  · rw [and_iff_right htaken]
    refine ⟨fun h hopens => ?_, markProcessed_eq_nil⟩
    have hstore := store_mem_markProcessed.2 hopens
    rw [h] at hstore
    cases hstore
  · exact iff_of_true rfl fun h => htaken h.1

theorem turn_flags {k : ℕ} {uid : Bytes} {r : Reply} (hgets : t.Gets k uid r) :
    (t.turn drops k uid r).Flags ↔ t.Takes drops k uid r ∧ (t.handling k).stores := by
  rw [Turn.Flags, turn_sent, Transcript.Takes, and_iff_right hgets]
  split_ifs with htaken
  · rw [store_mem_markProcessed, and_iff_right htaken]
    rfl
  · simp [htaken]

theorem turn_expunges {k : ℕ} {uid : Bytes} {r : Reply} (hgets : t.Gets k uid r) :
    (t.turn drops k uid r).Expunges ↔ t.Takes drops k uid r ∧ (t.handling k).marking.Stored ∧
      (t.handling k).expunges := by
  rw [Turn.Expunges, turn_sent, Transcript.Takes, and_iff_right hgets]
  split_ifs with htaken
  · rw [expunge_mem_markProcessed, and_iff_right htaken, and_assoc]
    rfl
  · simp [htaken]

/-- An EXPUNGE of the pull that is carried out. -/
theorem expunges_iff (hp : ∀ (k : ℕ) r, t.fetches[k]? = some r → r.Plain (nextTag (t.tag + 3 + k)))
    {k : ℕ} : (∃ e, (turns drops t)[k]? = some e ∧ e.Expunges) ↔ t.Expunges drops k := by
  simp only [turns_getElem? hp]
  constructor
  · rintro ⟨_, ⟨uid, r, hgets, rfl⟩, he⟩
    exact ⟨uid, r, (turn_expunges hgets).1 he⟩
  · rintro ⟨uid, r, htakes, he⟩
    exact ⟨_, ⟨uid, r, htakes.1, rfl⟩, (turn_expunges htakes.1).2 ⟨htakes, he⟩⟩

end

theorem exists_from {α : Type} {b a : List α} {P : α → Prop} :
    (∃ e ∈ a, P e) ↔ ∃ j, b.length ≤ j ∧ ∃ e, (b ++ a)[j]? = some e ∧ P e := by
  constructor
  · rintro ⟨e, he, hP⟩
    obtain ⟨i, hi⟩ := List.mem_iff_getElem?.1 he
    refine ⟨b.length + i, Nat.le_add_right _ _, e, ?_, hP⟩
    rw [List.getElem?_append_right (Nat.le_add_right _ _), Nat.add_sub_cancel_left, hi]
  · rintro ⟨j, hj, e, he, hP⟩
    rw [List.getElem?_append_right hj] at he
    exact ⟨e, List.mem_of_getElem? he, hP⟩

variable {drops : Bytes → Bool} {run : List Transcript}

/-- What the pulls of a run remove: messages with a STORE that was carried out, and an EXPUNGE in
the same session or a later one. -/
theorem removed_iff (hp : ∀ t ∈ run, ∀ (k : ℕ) r, t.fetches[k]? = some r →
      r.Plain (nextTag (t.tag + 3 + k))) {s : Turn} :
    s ∈ removed [] (run.flatMap (turns drops)) ↔ ∃ earlier t later k uid r,
      run = earlier ++ t :: later ∧ t.Takes drops k uid r ∧ (t.handling k).stores ∧
        ((∃ j, k ≤ j ∧ t.Expunges drops j) ∨ ∃ u ∈ later, ∃ j, u.Expunges drops j) ∧
          t.turn drops k uid r = s := by
  have hfrom : ∀ {t : Transcript} {later b a : List _}, t ∈ run → (∀ u ∈ later, u ∈ run) →
      turns drops t = b ++ s :: a →
      ((∃ e ∈ s :: (a ++ later.flatMap (turns drops)), e.Expunges) ↔
        (∃ j, b.length ≤ j ∧ t.Expunges drops j) ∨ ∃ u ∈ later, ∃ j, u.Expunges drops j) := by
    intro t later b a ht hlater hturns
    have hhere : (∃ e ∈ s :: a, e.Expunges) ↔ ∃ j, b.length ≤ j ∧ t.Expunges drops j := by
      rw [exists_from (b := b), ← hturns]
      simp only [expunges_iff (hp t ht)]
    have hthere : (∃ e ∈ later.flatMap (turns drops), e.Expunges) ↔
        ∃ u ∈ later, ∃ j, u.Expunges drops j := by
      simp only [List.mem_flatMap]
      constructor
      · rintro ⟨e, ⟨u, hu, he⟩, hexp⟩
        obtain ⟨j, hj⟩ := List.mem_iff_getElem?.1 he
        exact ⟨u, hu, j, (expunges_iff (hp u (hlater u hu))).1 ⟨e, hj, hexp⟩⟩
      · rintro ⟨u, hu, j, hexp⟩
        obtain ⟨e, hj, he⟩ := (expunges_iff (hp u (hlater u hu))).2 hexp
        exact ⟨e, ⟨u, hu, List.mem_of_getElem? hj⟩, he⟩
    rw [← hhere, ← hthere, ← List.cons_append]
    simp only [List.mem_append, or_and_right, exists_or]
  rw [mem_removed]
  simp only [List.not_mem_nil, false_and, false_or]
  constructor
  · rintro ⟨before, after, hsplit, hflags, hexp⟩
    obtain ⟨earlier, t, later, b, a, rfl, hturns, -, rfl⟩ := turns_split.1 hsplit
    have ht : t ∈ earlier ++ t :: later := by simp
    have hk : (turns drops t)[b.length]? = some s := by simp [hturns]
    obtain ⟨uid, r, hgets, rfl⟩ := (turns_getElem? (hp t ht)).1 hk
    obtain ⟨htakes, hstores⟩ := (turn_flags hgets).1 hflags
    exact ⟨earlier, t, later, b.length, uid, r, rfl, htakes, hstores,
      (hfrom ht (fun u hu => by simp [hu]) hturns).1 hexp, rfl⟩
  · rintro ⟨earlier, t, later, k, uid, r, rfl, htakes, hstores, hexp, rfl⟩
    have ht : t ∈ earlier ++ t :: later := by simp
    have hk : (turns drops t)[k]? = some (t.turn drops k uid r) :=
      (turns_getElem? (hp t ht)).2 ⟨uid, r, htakes.1, rfl⟩
    obtain ⟨hlt, heq⟩ := List.getElem?_eq_some_iff.1 hk
    obtain ⟨b, a, hturns, rfl⟩ : ∃ b a, turns drops t = b ++ t.turn drops k uid r :: a ∧ b.length = k :=
      ⟨(turns drops t).take k, (turns drops t).drop (k + 1), by
        rw [← heq, List.getElem_cons_drop, List.take_append_drop], List.length_take_of_le hlt.le⟩
    refine ⟨_, _, turns_split.2 ⟨earlier, t, later, b, a, rfl, hturns, rfl, rfl⟩,
      (turn_flags htakes.1).2 ⟨htakes, hstores⟩, ?_⟩
    exact (hfrom ht (fun u hu => by simp [hu]) hturns).2 hexp

/-- The pulls of a run destroy no unread mail exactly when the replies are safe. -/
theorem pull_safe_iff (hp : ∀ t ∈ run, ∀ (k : ℕ) r, t.fetches[k]? = some r →
      r.Plain (nextTag (t.tag + 3 + k))) :
    Safe drops run ↔ RepliesSafe drops run := by
  have hturn : ∀ t ∈ run, ∀ s, s ∈ turns drops t ↔
      ∃ k uid r, t.Gets k uid r ∧ t.turn drops k uid r = s := by
    intro t ht s
    simp only [List.mem_iff_getElem?, turns_getElem? (hp t ht)]
  constructor
  · intro h
    refine ⟨fun t ht k uid r htakes => ?_, ?_, ?_⟩
    · have hmem := (hturn t ht _).2 ⟨k, uid, r, htakes.1, rfl⟩
      have hgood := mt (h.refused t ht _ hmem) fun hnil => (turn_sent_eq_nil htakes.1).1 hnil htakes
      rw [turn_id, not_or, not_not] at hgood
      exact ⟨hgood.1, Option.isSome_iff_ne_none.2 hgood.2⟩
    · intro earlier t later hrun k uid r htakes hd hstores hexp
      have hbody := h.delivered _
        ((removed_iff hp).2 ⟨earlier, t, later, k, uid, r, hrun, htakes, hstores, hexp, rfl⟩)
        (deliver_staged.2 ⟨hd, htakes.2.1.resolve_left hd⟩)
      rwa [turn_id, turn_raw] at hbody
    · intro t ht k uid r hgets hleft j hexp
      have hmem := (hturn t ht _).2 ⟨k, uid, r, hgets, rfl⟩
      obtain ⟨uid', r', htakes, hexp'⟩ := hexp
      have hmem' := (hturn t ht _).2 ⟨j, uid', r', htakes.1, rfl⟩
      have hother := h.left t ht _ hmem
        (by rwa [Turn.Left, turn_id, Transcript.turn, deliver_failed]) _ hmem'
        ((turn_expunges htakes.1).2 ⟨htakes, hexp'⟩)
      rwa [turn_id] at hother
  · intro h
    refine ⟨?_, ?_, ?_⟩
    · intro s hs hstaged
      obtain ⟨earlier, t, later, k, uid, r, hrun, htakes, hstores, hexp, rfl⟩ := (removed_iff hp).1 hs
      rw [turn_id, turn_raw]
      exact h.whole earlier t later hrun k uid r htakes (deliver_staged.1 hstaged).1 hstores hexp
    · intro t ht s hs hbad
      obtain ⟨k, uid, r, hgets, rfl⟩ := (hturn t ht s).1 hs
      refine (turn_sent_eq_nil hgets).2 fun htakes => ?_
      obtain ⟨hok, hbody⟩ := h.bodies t ht k uid r htakes
      rw [turn_id] at hbad
      rcases hbad with hbad | hbad
      · exact hbad hok
      · rw [show r.body? uid = none from hbad] at hbody
        cases hbody
    · intro t ht s hs hleft e he hexp
      obtain ⟨k, uid, r, hgets, rfl⟩ := (hturn t ht s).1 hs
      obtain ⟨j, uid', r', hgets', rfl⟩ := (hturn t ht e).1 he
      obtain ⟨htakes, hexp⟩ := (turn_expunges hgets').1 hexp
      rw [Turn.Left, turn_id, Transcript.turn, deliver_failed] at hleft
      rw [turn_id]
      exact h.others t ht k uid r hgets hleft j ⟨uid', r', htakes, hexp⟩

/-- A pull of one message whose FETCH gets the reply. -/
def onePull (r : Reply) : Transcript where
  carrier := ⟨ascii "u", ascii "p", ascii "INBOX"⟩
  room := 2 ^ 63 - 1
  tag := 1
  opening := ⟨ascii "* OK
", ascii "A0001 OK
", ascii "A0002 OK
"⟩
  search := ascii "* SEARCH 7
A0003 OK
"
  fetches := [r]
  handling := fun _ => ⟨true, ⟨6,
    ⟨ascii "* OK
", ascii "A0006 OK
", ascii "A0007 OK
"⟩, ascii "A0008 OK
"⟩,
    true, true, []⟩

/-- The reply that gives the body as a literal. -/
def literalReply : Reply := ⟨[.fetch 1 [.uid 7, .body (.literal (ascii "hi
"))]], .ok, []⟩

theorem pull_literal_safe : Safe (fun _ => false) [onePull literalReply] := by
  have hp : ∀ t ∈ [onePull literalReply], ∀ (k : ℕ) r, t.fetches[k]? = some r →
      r.Plain (nextTag (t.tag + 3 + k)) := by
    intro t ht
    obtain rfl := List.mem_singleton.1 ht
    rintro (_ | k) r hr
    · obtain rfl := Option.some.inj hr
      decide +kernel
    · simp [onePull] at hr
  have hfound : imapCommand (nextTag 3) (onePull literalReply).search =
      .ok [ascii "* SEARCH 7", ascii "A0003 OK"] := by decide +kernel
  have huids : searchUids [ascii "* SEARCH 7", ascii "A0003 OK"] = [ascii "7"] := by decide +kernel
  have hgets : ∀ {k uid r}, (onePull literalReply).Gets k uid r →
      k = 0 ∧ uid = ascii "7" ∧ r = literalReply := by
    rintro (_ | k) uid r ⟨uids, ⟨-, found, hf, rfl, -⟩, huid, hr⟩
    · obtain rfl := Except.ok.inj (hf.symm.trans hfound)
      rw [huids] at huid
      exact ⟨rfl, (Option.some.inj huid).symm, (Option.some.inj hr).symm⟩
    · simp [onePull] at hr
  refine (pull_safe_iff hp).2 ⟨?_, ?_, ?_⟩
  · rintro t ht k uid r ⟨hg, -⟩
    obtain rfl := List.mem_singleton.1 ht
    obtain ⟨rfl, rfl, rfl⟩ := hgets hg
    exact ⟨rfl, by decide +kernel⟩
  · rintro earlier t later hrun k uid r ⟨hg, -⟩ - - -
    have ht : t ∈ [onePull literalReply] := hrun ▸ by simp
    obtain rfl := List.mem_singleton.1 ht
    obtain ⟨rfl, rfl, rfl⟩ := hgets hg
    decide +kernel
  · intro t ht k uid r hg hleft j hexp
    obtain rfl := List.mem_singleton.1 ht
    exact List.not_mem_nil

/-- A refused FETCH is staged as a message of no bytes, and the message is deleted. -/
theorem pull_deletes_refused :
    pull (fun _ => false) (onePull ⟨[], .no, ascii "busy"⟩) =
        [⟨⟨ascii "7", []⟩, .staged, [.store, .expunge]⟩] ∧
      ¬ Safe (fun _ => false) [onePull ⟨[], .no, ascii "busy"⟩] := by
  have hpull : pull (fun _ => false) (onePull ⟨[], .no, ascii "busy"⟩) =
      [⟨⟨ascii "7", []⟩, .staged, [.store, .expunge]⟩] := by decide +kernel
  refine ⟨hpull, fun h => ?_⟩
  have hsent := h.refused _ List.mem_cons_self ⟨⟨⟨ascii "7", []⟩, .staged, [.store, .expunge]⟩,
    ⟨[], .no, ascii "busy"⟩, (onePull ⟨[], .no, ascii "busy"⟩).handling 0⟩
    (by rw [turns, hpull]; exact List.mem_cons_self) (Or.inl (by decide))
  exact absurd hsent (by decide)

end Antie.Imap
