import AxiomCarriers.Lib.Run
import AxiomCarriers.Lib.Text

/-!
# Reading from a carrier connection

What the server sends reaches the client in chunks, one for every read of the socket.
`carrier_io::read_line` reads through a `BufReader`: it reads whole chunks until a line is there,
and when the reader is dropped, what the last chunk held behind the line is lost with it (`unread`).
At the end of the chunks the connection is closed; a line cut off there is still returned, and only
the read that finds nothing is an error.
-/

namespace Antie

open Bytes Utf8 Text

/-- The failures of a carrier session, each an `AntieError` with this text, but for the last. -/
inductive CarrierError
  /-- `{what}: connection closed by server mid-response` -/
  | eof (what : Bytes)
  /-- `{what}: connection closed by server mid-response {detail} (literal {missing} bytes short)` -/
  | short (what detail : Bytes) (missing : ℕ)
  /-- `{what} read: stream did not contain valid UTF-8` -/
  | notUtf8 (what : Bytes)
  /-- The server refused the command with this line. -/
  | refused (line : Bytes)
  /-- `IMAP bad greeting: {line}` -/
  | badGreeting (line : Bytes)
  /-- `IMAP argument contains CR/LF — refusing (command injection)` -/
  | badArgument
  /-- Nothing is returned: there is no buffer for a literal, and the program panics or aborts. -/
  | panic
  deriving DecidableEq

/-- A message a carrier has fetched, under the id the carrier knows it by. -/
structure IncomingMessage (ι : Type) where
  id : ι
  raw : Bytes
  deriving DecidableEq

/-- The chunks a dropped `BufReader` leaves behind that had to read `n` bytes. -/
def unread : ℕ → List Bytes → List Bytes
  | 0, cs => cs
  | _ + 1, [] => []
  | n + 1, c :: cs => unread (n + 1 - c.length) cs

/-- `carrier_io::read_line` through a new reader. -/
def readLine (what : Bytes) (cs : List Bytes) : Except CarrierError Bytes :=
  match lines cs.flatten with
  | [] => .error (.eof what)
  | l :: _ => if Valid l then .ok l else .error (.notUtf8 what)

@[simp] theorem unread_zero (cs : List Bytes) : unread 0 cs = cs := by
  unfold unread
  rfl

theorem unread_suffix (n : ℕ) (cs : List Bytes) : unread n cs <:+ cs := by
  induction cs generalizing n with
  | nil => cases n <;> exact List.suffix_refl _
  | cons c cs ih =>
    cases n with
    | zero => exact List.suffix_refl _
    | succ n => exact (ih _).trans (List.suffix_cons c cs)

/-- A reader that had to read everything leaves nothing. -/
theorem unread_eq_nil {n : ℕ} {cs : List Bytes} (hne : ∀ c ∈ cs, c ≠ [])
    (hn : cs.flatten.length ≤ n) : unread n cs = [] := by
  induction cs generalizing n with
  | nil => cases n <;> rfl
  | cons c cs ih =>
    have hc := List.length_pos_of_ne_nil (hne c List.mem_cons_self)
    rw [List.flatten_cons, List.length_append] at hn
    cases n with
    | zero => omega
    | succ n => exact ih (fun d hd => hne d (List.mem_cons_of_mem _ hd)) (by omega)

theorem readLine_ok {what : Bytes} {cs : List Bytes} {l : Bytes} (h : readLine what cs = .ok l) :
    ∃ ls, lines cs.flatten = l :: ls := by
  unfold readLine at h
  cases hl : lines cs.flatten with
  | nil => simp [hl] at h
  | cons x ls =>
    simp only [hl] at h
    split_ifs at h
    exact ⟨ls, by rw [Except.ok.inj h]⟩

end Antie
