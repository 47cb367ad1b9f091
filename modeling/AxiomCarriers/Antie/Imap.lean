import AxiomCarriers.Antie.CarrierIo
import AxiomCarriers.Lib.Quoted

/-!
# The IMAP carrier

The client side of `ImapCarrier` on the replies of the server: `imap_command`, `fetch_message`,
`check_new` and `mark_processed`.  `fetch_message` reads lines up to the first that begins with its
tag, whatever status that line gives, and collects the literals announced by the lines before it;
`fetch_step` is one round of this loop.
-/

namespace Antie.Imap

open Bytes Utf8 Text

/-- `next_tag`: the letter A and the counter, of 32 bits, in four digits or more. -/
def nextTag (n : ℕ) : Bytes := 65 :: (List.replicate (4 - (decimal (n % 2 ^ 32)).length) 48 ++
  decimal (n % 2 ^ 32))

/-- `imap_quote` refuses an argument with a line break. -/
def imapQuote (s : Bytes) : Except CarrierError Bytes :=
  if CR ∈ s ∨ LF ∈ s then .error .badArgument
  else .ok (34 :: (Quoted.replace 34 [92, 34] (Quoted.replace 92 [92, 92] s) ++ [34]))

/-- The loop of `imap_command` over the lines of the reply. -/
def commandLoop (tag : Bytes) : List Bytes → Except CarrierError (List Bytes)
  | [] => .error (.eof (ascii "IMAP"))
  | l :: ls =>
    if ¬ Valid l then .error (.notUtf8 (ascii "IMAP"))
    else if tag ++ [32] <+: trim l then
      if ascii "OK" <+: (trim l).drop (tag.length + 1) then .ok [trim l]
      else .error (.refused (trim l))
    else (commandLoop tag ls).map (trim l :: ·)

/-- `imap_command`: the lines of the reply. -/
def imapCommand (tag reply : Bytes) : Except CarrierError (List Bytes) := commandLoop tag (lines reply)

def readGreeting (reply : Bytes) : Except CarrierError Unit := do
  let line ← readLine (ascii "IMAP greeting") [reply]
  if ascii "OK" <:+: line then .ok () else .error (.badGreeting (trim line))

/-- The size of the literal that a line announces at its end. -/
def announced (line : Bytes) : Option ℕ :=
  let trimmed := trim line
  if trimmed.getLast? = some 125 ∧ 123 ∈ trimmed then
    parseUsize (trimmed.dropLast.rtakeWhile (· ≠ 123))
  else none

/-- The loop of `fetch_message` over what is left of the reply.  Every round takes a byte or more,
so that the length of the reply is enough rounds.  A literal of more than `room` bytes gets no
buffer: above `isize::MAX` `vec![0u8; size]` panics, and below it where memory is short. -/
def fetchLoop (room : ℕ) (tag uid : Bytes) : ℕ → Bytes → Except CarrierError Bytes
  | 0, _ => .error (.eof (ascii "IMAP FETCH uid=" ++ uid))
  | rounds + 1, reply =>
    match lines reply with
    | [] => .error (.eof (ascii "IMAP FETCH uid=" ++ uid))
    | line :: _ =>
      if ¬ Valid line then .error (.notUtf8 (ascii "IMAP FETCH uid=" ++ uid))
      else if tag <+: trim line then .ok []
      else match announced line with
        | none => fetchLoop room tag uid rounds (reply.drop line.length)
        | some size =>
          let rest := reply.drop line.length
          if room < size then .error .panic
          else if rest.length < size then
            .error (.short (ascii "IMAP FETCH") (ascii "uid=" ++ uid) (size - rest.length))
          else (fetchLoop room tag uid rounds (rest.drop size)).map (rest.take size ++ ·)

/-- `fetch_message`: the bytes collected from the reply. -/
def fetchMessage (room : ℕ) (tag uid reply : Bytes) : Except CarrierError Bytes :=
  fetchLoop room tag uid reply.length reply

structure ImapCarrier where
  username : Bytes
  password : Bytes
  inboxFolder : Bytes

/-- The replies while a session is opened. -/
structure Opening where
  greeting : Bytes
  login : Bytes
  select : Bytes

/-- `open_session`, with the tag counter at `n`. -/
def openSession (c : ImapCarrier) (n : ℕ) (o : Opening) : Except CarrierError Unit := do
  readGreeting o.greeting
  let _ ← imapQuote c.username
  let _ ← imapQuote c.password
  let _ ← imapCommand (nextTag n) o.login
  let _ ← imapQuote c.inboxFolder
  let _ ← imapCommand (nextTag (n + 1)) o.select
  return ()

/-- The UIDs in the reply to UID SEARCH. -/
def searchUids (ls : List Bytes) : List Bytes :=
  (ls.filter (ascii "* SEARCH").isPrefixOf).flatMap fun l => (words l).drop 2

/-- The loop of `check_new` over the UIDs, with the tag counter at `n`; each FETCH has its reply to
the tag. -/
def fetchAll (room n : ℕ) :
    List Bytes → List (Bytes → Bytes) → Except CarrierError (List (IncomingMessage Bytes))
  | [], _ => .ok []
  | uid :: uids, replies => do
    let raw ← fetchMessage room (nextTag n) uid ((replies.head?.map (· (nextTag n))).getD [])
    let messages ← fetchAll room (n + 1) uids replies.tail
    return ⟨uid, raw⟩ :: messages

def checkNew (room : ℕ) (c : ImapCarrier) (n : ℕ) (o : Opening) (search : Bytes)
    (replies : List (Bytes → Bytes)) : Except CarrierError (List (IncomingMessage Bytes)) := do
  openSession c n o
  let found ← imapCommand (nextTag (n + 2)) search
  fetchAll room (n + 3) (searchUids found) replies

/-- The commands of `mark_processed` that destroy mail. -/
inductive Command
  | store
  | expunge
  deriving DecidableEq

/-- The replies in a session of `mark_processed`. -/
structure Marking where
  tag : ℕ
  opening : Opening
  store : Bytes

/-- `mark_processed`: which of its commands are sent. -/
def markProcessed (c : ImapCarrier) (m : Marking) : List Command :=
  match openSession c m.tag m.opening with
  | .error _ => []
  | .ok () =>
    match imapCommand (nextTag (m.tag + 2)) m.store with
    | .error _ => [.store]
    | .ok _ => [.store, .expunge]

/-! ## The loop of `fetch_message` -/

variable {room : ℕ}

theorem fetchLoop_rounds (tag uid : Bytes) {n m : ℕ} {reply : Bytes} (hn : reply.length ≤ n)
    (hm : reply.length ≤ m) : fetchLoop room tag uid n reply = fetchLoop room tag uid m reply := by
  induction n generalizing m reply with
  | zero =>
    obtain rfl := List.eq_nil_of_length_eq_zero (Nat.le_zero.1 hn)
    cases m <;> rfl
  | succ n ih =>
    cases m with
    | zero =>
      obtain rfl := List.eq_nil_of_length_eq_zero (Nat.le_zero.1 hm)
      rfl
    | succ m =>
      simp only [fetchLoop]
      cases hl : lines reply with
      | nil => rfl
      | cons line ls =>
        have hline := List.length_pos_of_ne_nil (ne_nil_of_mem_lines (hl ▸ List.mem_cons_self))
        have hdrop : ∀ k, ((reply.drop line.length).drop k).length ≤ n ∧
            ((reply.drop line.length).drop k).length ≤ m := by
          intro k
          simp only [List.length_drop]
          omega
        have h₀ := ih (hdrop 0).1 (hdrop 0).2
        rw [List.drop_zero] at h₀
        simp only [h₀, fun k => ih (hdrop k).1 (hdrop k).2]

/-- A round of the loop on a line and the rest of the reply. -/
theorem fetchMessage_line (tag uid : Bytes) {x : Bytes} (hx : LF ∉ x) (r : Bytes) :
    fetchMessage room tag uid (x ++ LF :: r) =
      if ¬ Valid (x ++ [LF]) then .error (.notUtf8 (ascii "IMAP FETCH uid=" ++ uid))
      else if tag <+: trim (x ++ [LF]) then .ok []
      else match announced (x ++ [LF]) with
        | none => fetchMessage room tag uid r
        | some size =>
          if room < size then .error .panic
          else if r.length < size then
            .error (.short (ascii "IMAP FETCH") (ascii "uid=" ++ uid) (size - r.length))
          else (fetchMessage room tag uid (r.drop size)).map (r.take size ++ ·) := by
  have hdrop : (x ++ LF :: r).drop (x ++ [LF]).length = r := by simp
  have hlen : (x ++ LF :: r).length = (x.length + r.length) + 1 := by simp [Nat.add_assoc]
  have hr : fetchLoop room tag uid (x.length + r.length) r = fetchMessage room tag uid r :=
    fetchLoop_rounds tag uid (Nat.le_add_left _ _) le_rfl
  have hrk : ∀ k, fetchLoop room tag uid (x.length + r.length) (r.drop k) =
      fetchMessage room tag uid (r.drop k) := fun k =>
    fetchLoop_rounds tag uid (by rw [List.length_drop]; omega) le_rfl
  rw [fetchMessage, hlen, fetchLoop, lines_line hx]
  simp only [hdrop, hr, hrk]

/-! ## What a line announces -/

/-- A literal is announced by its size at the end of a line. -/
def marker (n : ℕ) : Bytes := 123 :: (decimal n ++ [125])

theorem lf_notMem_marker (n : ℕ) : LF ∉ marker n := by
  intro hm
  simp only [marker, List.mem_cons, List.mem_append, List.not_mem_nil, or_false] at hm
  rcases hm with hm | hm | hm
  · exact absurd hm (by decide)
  · exact absurd (isDigit_of_mem_decimal hm) (by decide)
  · exact absurd hm (by decide)

theorem announced_marker (acc : Bytes) {n : ℕ} (hn : n < 2 ^ 64) :
    announced (acc ++ marker n ++ crlf) = some n := by
  have htrim : trim (acc ++ marker n ++ crlf) = trimStart acc ++ 123 :: (decimal n ++ [125]) := by
    have hcrlf : trimEnd crlf = [] := by decide +kernel
    have hsplit : acc ++ marker n ++ crlf = acc ++ 123 :: (decimal n ++ 125 :: crlf) := by
      simp [marker]
    rw [hsplit, trim_append_ascii (by decide) (by decide),
      trimEnd_append_ascii (by decide) (by decide), hcrlf]
  have hdigits : ∀ b ∈ decimal n, decide (b ≠ 123) = true := by
    intro b hb
    rw [decide_eq_true_eq]
    rintro rfl
    exact absurd (isDigit_of_mem_decimal hb) (by decide)
  have hlast : (trimStart acc ++ 123 :: (decimal n ++ [125])).dropLast =
      trimStart acc ++ 123 :: decimal n := by
    rw [← List.cons_append, ← List.append_assoc, List.dropLast_concat]
  have htake : (trimStart acc ++ 123 :: decimal n).rtakeWhile (· ≠ 123) = decimal n := by
    rw [List.rtakeWhile, List.reverse_append, List.reverse_cons, List.append_assoc,
      List.takeWhile_append_of_pos fun b hb => hdigits b (List.mem_reverse.1 hb)]
    simp
  unfold announced
  dsimp only
  have hend : (trimStart acc ++ 123 :: (decimal n ++ [125])).getLast? = some 125 := by
    rw [← List.cons_append, ← List.append_assoc, List.getLast?_concat]
  rw [htrim, if_pos ⟨hend, by simp⟩, hlast, htake, parseUsize_decimal hn]

end Antie.Imap
