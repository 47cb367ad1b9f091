import AxiomCarriers.Antie.ChequeRoute
import AxiomCarriers.Antie.Refusal
import AxiomCarriers.Fatmama.Smtp
import AxiomCarriers.Lib.Base64
import AxiomCarriers.Lib.Separator

/-!
# The envelope of a mail

`SmtpCarrier::send` names the recipient in its RCPT command as the caller gives it.  A recipient
with a line break ends the command and begins another one; a closing bracket ends the path.  Without
them the server gets one RCPT command with the recipient as its path, or none (`send_rcpt_iff`).
-/

namespace Seam.Envelope

open Bytes Separator

/-! ## Sending -/

/-- `SmtpCarrier`. -/
structure SmtpCarrier where
  server : Bytes
  username : Option Bytes
  password : Option Bytes
  useTls : Bool
  fromAddress : Bytes

/-- The failures of `SmtpCarrier::send`. -/
inductive SendError
  | plaintextAuth
  /-- `carrier_io::connect` has failed with this text. -/
  | connect (e : Bytes)
  | write (e : Bytes)
  /-- `carrier_io::read_line` has failed with this text. -/
  | read (e : Bytes)
  | refused (line : Bytes)
  deriving DecidableEq

def SendError.text : SendError → Bytes
  | .plaintextAuth => utf8
      "SMTP credentials set but use_tls=false — refusing to send AUTH in plaintext (AUTH implies TLS)"
  | .connect e | .read e => e
  | .write e => ascii "SMTP write: " ++ e
  | .refused line => ascii "SMTP error: " ++ line

/-- What `read_line` returns, call after call, until the server closes. -/
abbrev Replies := List (Except Bytes Bytes)

/-- `read_reply`. -/
def readReply : Replies → Except SendError Replies
  | [] => .error (.read (ascii "SMTP: connection closed by server mid-response"))
  | .error e :: _ => .error (.read e)
  | .ok l :: rest =>
    if l[3]? = some 45 then readReply rest
    else if l.head? = some 50 ∨ l.head? = some 51 then .ok rest
    else .error (.refused (Text.trim l))

inductive Step
  | write (b : Bytes)
  | reply

def Step.bytes : Step → Bytes
  | .write b => b
  | .reply => []

def written (steps : List Step) : Bytes := steps.flatMap Step.bytes

/-- A connection: whether it comes about, which writes fail and behind how many bytes, and the
replies. -/
structure Wire where
  connect : Except Bytes Unit
  fails : ℕ → Option (ℕ × Bytes)
  replies : Replies

/-- What is written in a conversation, and whether it comes to its end. -/
def converse (fails : ℕ → Option (ℕ × Bytes)) :
    ℕ → Replies → List Step → Bytes × Except SendError (ℕ × Replies)
  | i, replies, [] => ([], .ok (i, replies))
  | i, replies, .reply :: steps =>
    match readReply replies with
    | .error e => ([], .error e)
    | .ok replies => converse fails i replies steps
  | i, replies, .write b :: steps =>
    match fails i with
    | some (n, e) => (b.take n, .error (.write e))
    | none =>
      let (out, result) := converse fails (i + 1) replies steps
      (b ++ out, result)

def SmtpCarrier.hasCreds (c : SmtpCarrier) : Bool := c.username.isSome && c.password.isSome

def SmtpCarrier.login (c : SmtpCarrier) : List Step :=
  if c.hasCreds then
    [.write (ascii "AUTH LOGIN\r\n"), .reply,
      .write (Base64.encode (c.username.getD []) ++ crlf), .reply,
      .write (Base64.encode (c.password.getD []) ++ crlf), .reply]
  else []

/-- The steps before the recipient is named. -/
def SmtpCarrier.opening (c : SmtpCarrier) : List Step :=
  [.reply, .write (ascii "EHLO " ++ c.server ++ crlf), .reply] ++ c.login ++
    [.write (ascii "MAIL FROM:<" ++ c.fromAddress ++ ascii ">\r\n"), .reply]

def rcptLine (recipient : Bytes) : Bytes := ascii "RCPT TO:<" ++ recipient ++ ascii ">\r\n"

def rcpt (recipient : Bytes) : List Step := [.write (rcptLine recipient), .reply]

def data (rawEmail : Bytes) : List Step :=
  [.write (ascii "DATA\r\n"), .reply, .write rawEmail, .write (ascii "\r\n.\r\n"), .reply,
    .write (ascii "QUIT\r\n")]

/-- What `send` has written before DATA and from there on, and its result. -/
structure Sent where
  before : Bytes
  after : Bytes
  result : Except SendError Unit

def SmtpCarrier.send (c : SmtpCarrier) (recipient rawEmail : Bytes) (w : Wire) : Sent :=
  if c.hasCreds ∧ ¬ c.useTls then ⟨[], [], .error .plaintextAuth⟩
  else match w.connect with
    | .error e => ⟨[], [], .error (.connect e)⟩
    | .ok () =>
      match converse w.fails 0 w.replies (c.opening ++ rcpt recipient) with
      | (before, .error e) => ⟨before, [], .error e⟩
      | (before, .ok (i, replies)) =>
        let (after, result) := converse w.fails i replies (data rawEmail)
        ⟨before, after, result.map fun _ => ()⟩

/-! ## What the server reads -/

/-- The command lines that have come to their end. -/
def commands (b : Bytes) : List Bytes := (terminated LF b).map Headers.stripCR

def isRcpt (cmd : Bytes) : Bool := (cmd.takeWhile (· ≠ 32)).map lower = ascii "rcpt"

def rcptCommands (b : Bytes) : List Bytes := (commands b).filter isRcpt

/-- One RCPT command comes before DATA, with the recipient as its path, or the mail is refused and
none does. -/
def NamesOnly (recipient : Bytes) (s : Sent) : Prop :=
  (rcptCommands s.before).map Fatmama.angled = [some recipient] ∨
    (∃ e, s.result = .error e) ∧ rcptCommands s.before = []

/-! ## What a conversation writes -/

variable {fails : ℕ → Option (ℕ × Bytes)} {i : ℕ} {replies : Replies} {steps : List Step}

theorem converse_isPrefix (fails : ℕ → Option (ℕ × Bytes)) (i : ℕ) (replies : Replies)
    (steps : List Step) :
    (converse fails i replies steps).1 <+: written steps := by
  induction steps generalizing i replies with
  | nil => exact List.nil_prefix
  | cons s steps ih =>
    cases s with
    | reply =>
      rw [converse]
      split
      · exact List.nil_prefix
      · exact ih i _
    | write b =>
      rw [converse]
      split
      · exact (List.take_prefix _ b).trans (List.prefix_append b (written steps))
      · exact (List.prefix_append_right_inj b).2 (ih (i + 1) replies)

/-- A conversation that comes to its end has written everything. -/
theorem converse_ok {x : ℕ × Replies} (h : (converse fails i replies steps).2 = .ok x) :
    (converse fails i replies steps).1 = written steps := by
  induction steps generalizing i replies with
  | nil => rfl
  | cons s steps ih =>
    cases s with
    | reply =>
      rw [converse] at h ⊢
      split at h
      · cases h
      · exact ih h
    | write b =>
      rw [converse] at h ⊢
      split at h
      · cases h
      · exact congrArg (b ++ ·) (ih h)

/-- A server that accepts everything. -/
def accepting (n : ℕ) : Replies := List.replicate n (.ok (ascii "250 ok\r\n"))

theorem readReply_accepting (n : ℕ) : readReply (accepting (n + 1)) = .ok (accepting n) := rfl

theorem converse_accepting (i n : ℕ) (steps : List Step) :
    ∃ j m, n ≤ m ∧ converse (fun _ => none) i (accepting (steps.length + n)) steps =
      (written steps, .ok (j, accepting m)) := by
  induction steps generalizing i n with
  | nil => exact ⟨i, n, le_rfl, by simp [converse, written]⟩
  | cons s steps ih =>
    cases s with
    | reply =>
      obtain ⟨j, m, hm, h⟩ := ih i n
      refine ⟨j, m, hm, ?_⟩
      rw [List.length_cons, Nat.add_right_comm, converse, readReply_accepting]
      exact h
    | write b =>
      obtain ⟨j, m, hm, h⟩ := ih (i + 1) (n + 1)
      refine ⟨j, m, (Nat.le_succ n).trans hm, ?_⟩
      rw [List.length_cons, Nat.add_assoc, Nat.add_comm 1 n, converse, h]
      rfl

variable (c : SmtpCarrier) (recipient rawEmail : Bytes) (w : Wire)

theorem send_isPrefix :
    (c.send recipient rawEmail w).before <+: written (c.opening ++ rcpt recipient) := by
  unfold SmtpCarrier.send
  split_ifs
  · exact List.nil_prefix
  · have h := converse_isPrefix w.fails 0 w.replies (c.opening ++ rcpt recipient)
    split
    · exact List.nil_prefix
    · split <;> simpa only [*] using h

theorem send_ok (h : (c.send recipient rawEmail w).result = .ok ()) :
    (c.send recipient rawEmail w).before = written (c.opening ++ rcpt recipient) := by
  unfold SmtpCarrier.send at h ⊢
  split_ifs at h ⊢
  split at h
  · cases h
  · split at h
    · cases h
    next hconverse =>
      have hall := converse_ok (congrArg Prod.snd hconverse)
      simp only [hconverse] at hall ⊢
      exact hall

theorem send_accepting (h : ¬ (c.hasCreds ∧ ¬ c.useTls)) :
    ∃ w, (c.send recipient rawEmail w).result = .ok () := by
  obtain ⟨j, m, hm, hfirst⟩ :=
    converse_accepting 0 (data rawEmail).length (c.opening ++ rcpt recipient)
  obtain ⟨n, rfl⟩ := Nat.exists_eq_add_of_le hm
  obtain ⟨k, m, -, hsecond⟩ := converse_accepting j n (data rawEmail)
  refine ⟨⟨.ok (), fun _ => none,
    accepting ((c.opening ++ rcpt recipient).length + (data rawEmail).length)⟩, ?_⟩
  unfold SmtpCarrier.send
  rw [if_neg h]
  simp only [hfirst, hsecond]
  rfl

/-! ## The commands -/

theorem rcptCommands_append {a : Bytes} (h : [LF] <:+ a) (b : Bytes) :
    rcptCommands (a ++ b) = rcptCommands a ++ rcptCommands b := by
  rw [rcptCommands, commands, terminated_append_of_suffix h, List.map_append, List.filter_append]
  rfl

theorem rcptCommands_mono {a b : Bytes} (h : a <+: b) : rcptCommands a <+: rcptCommands b :=
  ((terminated_mono h).map _).filter _

theorem stripCR_append {p : Bytes} (hp : p.getLast? ≠ some CR) (x : Bytes) :
    Headers.stripCR (p ++ x) = p ++ Headers.stripCR x := by
  cases x using List.reverseRecOn with
  | nil => simp [Headers.stripCR, hp]
  | append_singleton x b =>
    rw [← List.append_assoc, Headers.stripCR, Headers.stripCR, List.getLast?_concat,
      List.getLast?_concat]
    split_ifs
    · rw [List.dropLast_concat, List.dropLast_concat]
    · rw [List.append_assoc]

theorem stripCR_concat (x : Bytes) : Headers.stripCR (x ++ [CR]) = x := by
  simp [Headers.stripCR]

theorem stripCR_isPrefix (x : Bytes) : Headers.stripCR x <+: x := by
  unfold Headers.stripCR
  split_ifs
  · exact List.dropLast_prefix x
  · exact List.prefix_refl x

theorem isRcpt_rcpt (x : Bytes) : isRcpt (ascii "RCPT TO:<" ++ x) := by
  have hverb : (ascii "RCPT TO:<" ++ x).takeWhile (· ≠ 32) = ascii "RCPT" :=
    takeWhile_append (a := ascii "RCPT") (by decide) (ascii "TO:<" ++ x)
  rw [isRcpt, hverb]
  decide

theorem idxOf_append {c : UInt8} {x : Bytes} (h : c ∉ x) (r : Bytes) :
    (x ++ c :: r).idxOf? c = some x.length := by
  refine List.idxOf?_eq_some_iff.2 ⟨by simp, by simp, fun j hj he => h ?_⟩
  rw [← he, List.getElem_append_left hj]
  exact List.getElem_mem hj

/-- The path ends at the first closing bracket. -/
theorem angled_eq {p x : Bytes} (hopen : 60 ∉ p) (hp : 62 ∉ p) (hx : 62 ∉ x) (r : Bytes) :
    Fatmama.angled (p ++ 60 :: (x ++ 62 :: r)) = some x := by
  have hclose : (p ++ 60 :: (x ++ 62 :: r)).idxOf? 62 = some (p ++ 60 :: x).length := by
    have hmem : 62 ∉ p ++ 60 :: x := by simp [hp, hx]
    rw [← idxOf_append hmem r]
    simp
  rw [Fatmama.angled, idxOf_append hopen, hclose]
  simp only [List.length_append, List.length_cons]
  rw [if_pos (by omega)]
  have htake : (p ++ 60 :: (x ++ 62 :: r)).take (p.length + (x.length + 1)) = p ++ [60] ++ x := by
    rw [List.take_length_add_append]
    simp
  rw [htake, List.drop_left' (by simp)]

theorem angled_subset {cmd path : Bytes} (h : Fatmama.angled cmd = some path) : path ⊆ cmd := by
  unfold Fatmama.angled at h
  split at h
  · split_ifs at h
    rw [← Option.some.inj h]
    exact fun b hb => List.mem_of_mem_take (List.mem_of_mem_drop hb)
  · cases h

/-- The line is one RCPT command, or ends early in a recipient with a line break. -/
theorem rcptLine_cases (recipient : Bytes) :
    (LF ∉ recipient ∧
        rcptCommands (rcptLine recipient) = [ascii "RCPT TO:<" ++ (recipient ++ [62])]) ∨
      (LF ∈ recipient ∧ ∃ x more, LF ∉ x ∧
        rcptCommands (rcptLine recipient) = (ascii "RCPT TO:<" ++ x) :: more) := by
  rcases first_cases LF recipient with hlf | ⟨u, v, hu, rfl⟩
  · refine Or.inl ⟨hlf, ?_⟩
    have hshape : rcptLine recipient =
        (ascii "RCPT TO:<" ++ (recipient ++ [62]) ++ [CR]) ++ LF :: [] := by
      simp [rcptLine, ascii]
    have hnot : LF ∉ ascii "RCPT TO:<" ++ (recipient ++ [62]) ++ [CR] := by
      simp only [List.mem_append, not_or]
      exact ⟨⟨by decide, hlf, by decide⟩, by decide⟩
    rw [hshape, rcptCommands, commands, terminated_piece hnot,
      terminated_of_notMem List.not_mem_nil, List.map_singleton, stripCR_concat,
      List.filter_singleton, isRcpt_rcpt]
    rfl
  · refine Or.inr ⟨by simp, Headers.stripCR u, rcptCommands (v ++ ascii ">\r\n"),
      fun h => hu ((stripCR_isPrefix u).subset h), ?_⟩
    have hshape : rcptLine (u ++ LF :: v) =
        (ascii "RCPT TO:<" ++ u) ++ LF :: (v ++ ascii ">\r\n") := by
      simp [rcptLine]
    have hnot : LF ∉ ascii "RCPT TO:<" ++ u := by
      simp only [List.mem_append, not_or]
      exact ⟨by decide, hu⟩
    rw [hshape, rcptCommands, commands, terminated_piece hnot, List.map_cons,
      stripCR_append (by decide), List.filter_cons_of_pos (isRcpt_rcpt _)]
    rfl

theorem rcptCommands_rcptLine_ne_nil (recipient : Bytes) :
    rcptCommands (rcptLine recipient) ≠ [] := by
  rcases rcptLine_cases recipient with ⟨-, h⟩ | ⟨-, x, more, -, h⟩ <;>
    exact h ▸ List.cons_ne_nil _ _

/-- The line names its recipient when nothing in it ends the line or the path. -/
theorem rcptLine_iff (recipient : Bytes) :
    (rcptCommands (rcptLine recipient)).map Fatmama.angled = [some recipient] ↔
      LF ∉ recipient ∧ 62 ∉ recipient := by
  rcases rcptLine_cases recipient with ⟨hlf, h⟩ | ⟨hlf, x, more, hx, h⟩
  · rw [h, List.map_singleton, List.singleton_inj]
    rcases first_cases 62 recipient with hclose | ⟨x, r, hx, rfl⟩
    · exact iff_of_true
        (angled_eq (p := ascii "RCPT TO:") (by decide) (by decide) hclose []) ⟨hlf, hclose⟩
    · refine iff_of_false (fun h => ?_) fun h => h.2 (by simp)
      have hcut : Fatmama.angled (ascii "RCPT TO:<" ++ (x ++ 62 :: r ++ [62])) = some x := by
        rw [List.append_assoc, List.cons_append]
        exact angled_eq (p := ascii "RCPT TO:") (by decide) (by decide) hx (r ++ [62])
      have hlen := congrArg List.length (Option.some.inj (hcut.symm.trans h))
      simp at hlen
  · refine iff_of_false (fun hnames => ?_) fun h => h.1 hlf
    rw [h, List.map_cons] at hnames
    have hmem := angled_subset (List.cons.inj hnames).1 hlf
    exact (List.mem_append.1 hmem).elim (by decide) hx

/-! ## One RCPT -/

theorem opening_suffix (c : SmtpCarrier) : [LF] <:+ written c.opening := by
  refine ⟨written ([.reply, .write (ascii "EHLO " ++ c.server ++ crlf), .reply] ++ c.login) ++
    (ascii "MAIL FROM:<" ++ c.fromAddress ++ [62, CR]), ?_⟩
  simp [SmtpCarrier.opening, written, Step.bytes, ascii]

theorem rcptCommands_opening :
    rcptCommands (written (c.opening ++ rcpt recipient)) =
      rcptCommands (written c.opening) ++ rcptCommands (rcptLine recipient) := by
  rw [← rcptCommands_append (opening_suffix c)]
  simp [written, rcpt, Step.bytes]

/-- Whatever the server does, `send` hands it one RCPT command with the recipient as its path, or is
refused before any, exactly when the carrier refuses to log in, or the recipient has no line break
and no closing bracket and the lines before the recipient hold no RCPT command of their own. -/
theorem send_rcpt_iff : (∀ rawEmail w, NamesOnly recipient (c.send recipient rawEmail w)) ↔
    (c.hasCreds ∧ ¬ c.useTls) ∨
      (rcptCommands (written c.opening) = [] ∧ LF ∉ recipient ∧ 62 ∉ recipient) := by
  constructor
  · intro h
    refine or_iff_not_imp_left.2 fun hplain => ?_
    obtain ⟨w, hok⟩ := send_accepting c recipient [] hplain
    have hnames := (h [] w).resolve_right fun hrefused => by
      obtain ⟨⟨e, he⟩, -⟩ := hrefused
      rw [hok] at he
      cases he
    rw [send_ok c recipient [] w hok, rcptCommands_opening] at hnames
    have hopening : rcptCommands (written c.opening) = [] := by
      have hlen := congrArg List.length hnames
      have hpos := List.length_pos_of_ne_nil (rcptCommands_rcptLine_ne_nil recipient)
      rw [List.length_map, List.length_append, List.length_singleton] at hlen
      exact List.length_eq_zero_iff.1 (by omega)
    rw [hopening, List.nil_append] at hnames
    exact ⟨hopening, (rcptLine_iff recipient).1 hnames⟩
  · rintro (hplain | ⟨hopening, hto⟩) rawEmail w
    · refine Or.inr ?_
      rw [SmtpCarrier.send, if_pos hplain]
      exact ⟨⟨_, rfl⟩, rfl⟩
    · have hall := rcptCommands_opening c recipient
      rw [hopening, List.nil_append] at hall
      have hpart := (rcptCommands_mono (send_isPrefix c recipient rawEmail w)).map Fatmama.angled
      rw [hall, (rcptLine_iff recipient).2 hto, List.prefix_cons_iff] at hpart
      rcases hpart with hnone | ⟨more, hone, hmore⟩
      · have hnone := List.map_eq_nil_iff.1 hnone
        refine Or.inr ⟨?_, hnone⟩
        cases hresult : (c.send recipient rawEmail w).result with
        | error e => exact ⟨e, rfl⟩
        | ok =>
          rw [send_ok c recipient rawEmail w hresult, hall] at hnone
          exact absurd hnone (rcptCommands_rcptLine_ne_nil recipient)
      · rw [List.prefix_nil.1 hmore] at hone
        exact Or.inl hone

/-! ## Recipients that reach it -/

/-- A cheque for a wallet whose mailbox ends the path and the line goes to a second recipient. -/
theorem cheque_rcpt_injected :
    ¬ ∀ (w : Antie.Gateway.Outside) (p : Antie.ChequeRoute.Sealing) (tx : Antie.Gateway.Transaction)
      (cheque recipient content : Bytes) (ok : Bool),
      .mail recipient content ok ∈
        Antie.ChequeRoute.deliverCheque w p (Antie.Gateway.receiverPlan w tx) tx cheque →
      ∀ (c : SmtpCarrier) (wire : Wire), NamesOnly recipient (c.send recipient content wire) := by
  intro h
  have h := h Antie.Gateway.sampleGateway ⟨fun _ => ascii "7", fun _ mail => (mail, false)⟩
    ⟨ascii "a@axiom/7", ascii "b@axiom>\r\nRCPT TO:<c@axiom/7", none, [], []⟩ []
    (ascii "b@axiom>\r\nRCPT TO:<c@axiom") [] true (by decide +kernel)
    ⟨ascii "axiom", none, none, false, ascii "v@axiom"⟩ ⟨.ok (), fun _ => none, accepting 9⟩
  rcases h with h | ⟨⟨e, h⟩, -⟩
  · exact absurd h (by decide +kernel)
  · cases h

end Seam.Envelope
