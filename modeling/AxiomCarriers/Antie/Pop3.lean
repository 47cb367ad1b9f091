import AxiomCarriers.Antie.CarrierIo

/-!
# The POP3 carrier

`Pop3Carrier::check_new` on the chunks in which the replies of the server arrive.  A message is
sent as its status line, its lines with a dot put before those that begin with one, and a line of a
single dot.

`fetch_intact` says when the messages `check_new` returns are those of the server: no read of a
status line reached into the message (`command` drops its reader), and no line of the message reads
as the final dot once white space is trimmed.
-/

namespace Antie.Pop3

open Bytes Utf8 Text

/-! ## The server's side of a transfer -/

/-- A message on the server: its lines, without their CRLF. -/
structure Mail where
  uid : ℕ
  text : List Bytes
  lf_notMem : ∀ l ∈ text, LF ∉ l
  deriving DecidableEq

def Mail.bytes (m : Mail) : Bytes := (m.text.map (· ++ crlf)).flatten

/-- A line that begins with a dot is sent with one more. -/
def stuff (l : Bytes) : Bytes := if l.head? = some 46 then 46 :: l else l

def Mail.content (m : Mail) : Bytes := (m.text.map (stuff · ++ crlf)).flatten

/-- The positive status line, with the server's own text. -/
def status (text : Bytes) : Bytes := [43, 79, 75] ++ text ++ crlf

def Mail.reply (m : Mail) (text : Bytes) : Bytes := status text ++ (m.content ++ 46 :: crlf)

/-! ## The client -/

/-- `command`: the reply line and the chunks left for the next read. -/
def command (cs : List Bytes) : Except CarrierError (Bytes × List Bytes) := do
  let line ← readLine (ascii "POP3") cs
  if (ascii "-ERR").isPrefixOf line then .error (.refused line)
  else .ok (line, unread line.length cs)

/-- Byte stuffing undone: a line that begins with two dots loses one. -/
def unstuff (l : Bytes) : Bytes := if [46, 46].isPrefixOf l then l.tail else l

/-- The line is the final dot to `read_multiline`. -/
def isDot (l : Bytes) : Bool := trim l = [46]

/-- The loop of `read_multiline` over the lines it reads: the message, and the number of bytes
read. -/
def multiline (what : Bytes) : List Bytes → Except CarrierError (Bytes × ℕ)
  | [] => .error (.eof what)
  | l :: ls =>
    if ¬ Valid l then .error (.notUtf8 what)
    else if isDot l then .ok ([], l.length)
    else (multiline what ls).map fun (data, n) => (unstuff l ++ data, l.length + n)

def readMultiline (which : Bytes) (cs : List Bytes) : Except CarrierError (Bytes × List Bytes) :=
  (multiline (ascii "POP3 RETR " ++ which) (lines cs.flatten)).map fun (data, n) => (data, unread n cs)

/-- The reply to one RETR: the text of the status line, and the chunks that arrive. -/
structure Transfer where
  text : Bytes
  chunks : List Bytes
  deriving DecidableEq

/-- The replies of a `check_new` session. -/
structure Session where
  greeting : List Bytes
  user : List Bytes
  pass : List Bytes
  stat : List Bytes
  retr : List Transfer
  deriving DecidableEq

/-- The number of messages in the reply to STAT. -/
def statCount (line : Bytes) : ℕ := ((words line)[1]?.bind parseUsize).getD 0

/-- The loop of `check_new` from message `i` on, for as many messages as are left. -/
def fetch (i : ℕ) (cs : List Bytes) :
    ℕ → List Transfer → Except CarrierError (List (IncomingMessage ℕ))
  | 0, _ => .ok []
  | left + 1, ts => do
    let (_, cs) ← command (cs ++ (ts.head?.map (·.chunks)).getD [])
    let (raw, cs) ← readMultiline (ascii "msg=" ++ decimal i) cs
    let messages ← fetch (i + 1) cs left ts.tail
    return ⟨i, raw⟩ :: messages

def checkNew (s : Session) : Except CarrierError (List (IncomingMessage ℕ)) := do
  let greeting ← readLine (ascii "POP3") s.greeting
  let (_, cs) ← command (unread greeting.length s.greeting ++ s.user)
  let (_, cs) ← command (cs ++ s.pass)
  let (stat, cs) ← command (cs ++ s.stat)
  fetch 1 cs (statCount stat) s.retr

/-! ## Replies of an RFC 1939 server -/

/-- A reply of one line, whole or cut off by the end of the connection. -/
def OneLine (cs : List Bytes) : Prop := (∀ c ∈ cs, c ≠ []) ∧ (lines cs.flatten).length ≤ 1

/-- The chunks are the reply to RETR for the message, whole or cut off by the end of the
connection. -/
def Sends (m : Mail) (t : Transfer) : Prop :=
  LF ∉ t.text ∧ (∀ c ∈ t.chunks, c ≠ []) ∧ t.chunks.flatten <+: m.reply t.text

/-- The session is that of a server that numbers its messages so. -/
def Serves (numbering : List Mail) (s : Session) : Prop :=
  OneLine s.greeting ∧ OneLine s.user ∧ OneLine s.pass ∧ OneLine s.stat ∧
    List.Forall₂ Sends numbering s.retr

instance (cs : List Bytes) : Decidable (OneLine cs) := inferInstanceAs (Decidable (_ ∧ _))

instance (m : Mail) (t : Transfer) : Decidable (Sends m t) :=
  inferInstanceAs (Decidable (_ ∧ _ ∧ _))

instance (numbering : List Mail) (s : Session) : Decidable (Serves numbering s) :=
  inferInstanceAs (Decidable (_ ∧ _ ∧ _ ∧ _ ∧ _))

/-- What follows the status line in the chunks. -/
def Transfer.body (t : Transfer) : Bytes := t.chunks.flatten.drop (status t.text).length

/-- The transfer reaches the client intact: the reads of the status line take nothing of the
message, and none of the message's lines that arrive reads as the final dot. -/
def Intact (m : Mail) (t : Transfer) : Prop :=
  (unread (status t.text).length t.chunks).flatten = t.body ∧
    ∀ l ∈ lines (t.body.take m.content.length), ¬ isDot l

instance (m : Mail) (t : Transfer) : Decidable (Intact m t) := inferInstanceAs (Decidable (_ ∧ _))

/-! ## What an intact transfer delivers -/

theorem unstuff_stuff (l : Bytes) : unstuff (stuff l ++ crlf) = l ++ crlf := by
  cases l with
  | nil => rfl
  | cons b r =>
    by_cases hb : b = 46
    · subst hb
      rfl
    · rw [stuff, if_neg (by simpa using hb), unstuff, if_neg]
      simpa [List.isPrefixOf_iff_prefix] using fun h => absurd h.symm hb

theorem lf_notMem_stuff {l : Bytes} (h : LF ∉ l) : LF ∉ stuff l ++ [CR] := by
  unfold stuff
  split_ifs <;> simpa [h] using by decide

/-- The lines of a message's transfer. -/
theorem lines_content_append (m : Mail) (r : Bytes) :
    lines (m.content ++ r) = m.text.map (stuff · ++ crlf) ++ lines r := by
  obtain ⟨uid, text, hlf⟩ := m
  unfold Mail.content
  dsimp only
  induction text with
  | nil => rfl
  | cons l ls ih =>
    have hl : LF ∉ stuff l ++ [CR] := lf_notMem_stuff (hlf l List.mem_cons_self)
    have hsplit : ((l :: ls).map (stuff · ++ crlf)).flatten ++ r =
        (stuff l ++ [CR]) ++ LF :: ((ls.map (stuff · ++ crlf)).flatten ++ r) := by
      simp [crlf]
    rw [hsplit, lines_line hl, ih fun x hx => hlf x (List.mem_cons_of_mem _ hx)]
    simp [crlf]

/-- A message read to its end is what precedes the first line that reads as the final dot. -/
theorem multiline_ok {what : Bytes} {ls : List Bytes} {data : Bytes} {n : ℕ}
    (h : multiline what ls = .ok (data, n)) :
    ∃ pre l post, ls = pre ++ l :: post ∧ (∀ x ∈ pre, ¬ isDot x) ∧ isDot l ∧
      data = (pre.map unstuff).flatten ∧ n = (pre ++ [l]).flatten.length := by
  induction ls generalizing data n with
  | nil => simp [multiline] at h
  | cons x ls ih =>
    rw [multiline] at h
    split_ifs at h with _ hx
    · obtain ⟨rfl, rfl⟩ := Prod.mk.inj (Except.ok.inj h)
      exact ⟨[], x, ls, rfl, by simp, hx, rfl, by simp⟩
    · obtain ⟨r, hm, hr⟩ := Except.map_eq_ok_iff.1 h
      obtain ⟨rfl, rfl⟩ := Prod.mk.inj hr
      obtain ⟨pre, l, post, rfl, hpre, hl, hdata, hn⟩ := ih hm
      refine ⟨x :: pre, l, post, rfl, ?_, hl, by simp [hdata], by simp [hn]⟩
      simpa using ⟨by simpa using hx, by simpa using hpre⟩

/-- A list cut at its first element with a property is cut there only. -/
theorem append_cons_inj {α : Type*} {p : α → Prop} {x y : α} {as bs cs : List α}
    (h : as ++ x :: cs = bs ++ [y]) (ha : ∀ a ∈ as, ¬ p a) (hb : ∀ b ∈ bs, ¬ p b) (hx : p x) :
    as = bs ∧ x = y := by
  induction as generalizing bs with
  | nil =>
    cases bs with
    | nil => exact ⟨rfl, (List.cons.inj h).1⟩
    | cons b bs => exact absurd ((List.cons.inj h).1 ▸ hx) (hb b List.mem_cons_self)
  | cons a as ih =>
    cases bs with
    | nil => exact absurd (List.cons.inj h).2 (by simp)
    | cons b bs =>
      obtain ⟨rfl, hcs⟩ := List.cons.inj h
      obtain ⟨rfl, hxy⟩ := ih hcs (fun c hc => ha c (List.mem_cons_of_mem _ hc))
        fun c hc => hb c (List.mem_cons_of_mem _ hc)
      exact ⟨rfl, hxy⟩

/-- A message that arrives without a line reading as the final dot is read as it is, or not at
all. -/
theorem readMultiline_intact {which : Bytes} {m : Mail} {cs cs' : List Bytes} {raw : Bytes}
    (hne : ∀ c ∈ cs, c ≠ []) (hsent : cs.flatten <+: m.content ++ 46 :: crlf)
    (hdot : ∀ l ∈ lines (cs.flatten.take m.content.length), ¬ isDot l)
    (h : readMultiline which cs = .ok (raw, cs')) : raw = m.bytes ∧ cs' = [] := by
  obtain ⟨⟨data, n⟩, hm, hr⟩ := Except.map_eq_ok_iff.1 h
  obtain ⟨rfl, rfl⟩ := Prod.mk.inj hr
  obtain ⟨pre, l, post, hls, hpre, hl, rfl, rfl⟩ := multiline_ok hm
  rcases prefix_append_cases hsent with hcut | ⟨d, hd, hcs, hdot'⟩
  · -- cut off inside the message: the final dot is not there
    rw [List.take_of_length_le hcut.length_le] at hdot
    exact absurd hl (hdot l (by simp [hls]))
  · have hend : lines d = [d] ∧ isDot d := by
      have hmem : d = [] ∨ d = [46] ∨ d = [46, CR] ∨ d = 46 :: crlf := by
        simpa [crlf] using (List.mem_inits d (46 :: crlf)).2 hdot'
      rcases hmem with rfl | rfl | rfl | rfl
      · exact absurd rfl hd
      all_goals exact ⟨by decide, by decide +kernel⟩
    rw [hcs, List.take_left] at hdot
    have hcontent := lines_content_append m []
    rw [List.append_nil, lines_nil, List.append_nil] at hcontent
    rw [hcs, lines_content_append, hend.1] at hls
    obtain ⟨rfl, rfl⟩ := append_cons_inj (p := (isDot · = true)) hls.symm hpre
      (hcontent ▸ hdot) hl
    refine ⟨?_, unread_eq_nil hne ?_⟩
    · simp [Mail.bytes, unstuff_stuff, Function.comp_def]
    · simp [hcs, Mail.content]

theorem command_ok {cs cs' : List Bytes} {line : Bytes} (h : command cs = .ok (line, cs')) :
    (∃ ls, lines cs.flatten = line :: ls) ∧ cs' = unread line.length cs := by
  unfold command at h
  obtain ⟨l, hl, h⟩ := Except.bind_eq_ok_iff.1 h
  split_ifs at h
  obtain ⟨rfl, rfl⟩ := Prod.mk.inj (Except.ok.inj h)
  exact ⟨readLine_ok hl, rfl⟩

/-- A reader of a reply of one line leaves nothing. -/
theorem OneLine.unread_eq_nil {cs : List Bytes} (hcs : OneLine cs) {line : Bytes}
    (h : ∃ ls, lines cs.flatten = line :: ls) : unread line.length cs = [] := by
  obtain ⟨ls, hls⟩ := h
  have hnil : ls = [] := by simpa [hls] using hcs.2
  have hall := flatten_lines cs.flatten
  rw [hls, hnil] at hall
  exact Antie.unread_eq_nil hcs.1 (by simpa using (congrArg List.length hall).ge)

theorem OneLine.command_ok {cs cs' : List Bytes} {line : Bytes} (hcs : OneLine cs)
    (h : command cs = .ok (line, cs')) : cs' = [] := by
  obtain ⟨hl, rfl⟩ := Pop3.command_ok h
  exact hcs.unread_eq_nil hl

/-- The body of an intact transfer. -/
theorem command_intact {m : Mail} {t : Transfer} (hs : Sends m t) (hi : Intact m t)
    {line : Bytes} {cs' : List Bytes} (h : command t.chunks = .ok (line, cs')) :
    cs'.flatten = t.body ∧ (∀ c ∈ cs', c ≠ []) ∧ t.body <+: m.content ++ 46 :: crlf := by
  obtain ⟨htext, hne, hsent⟩ := hs
  obtain ⟨⟨ls, hls⟩, rfl⟩ := command_ok h
  have hne' : ∀ c ∈ unread line.length t.chunks, c ≠ [] := fun c hc =>
    hne c ((unread_suffix _ _).mem hc)
  have hstatus : status t.text = ([43, 79, 75] ++ t.text ++ [CR]) ++ [LF] := by
    simp [status, crlf]
  have hlf : LF ∉ [43, 79, 75] ++ t.text ++ [CR] := by simpa [htext] using by decide
  rcases prefix_append_cases hsent with hcut | ⟨d, -, hd, hdm⟩
  · -- no more than the status line arrives
    have hbody : t.body = [] := List.drop_eq_nil_of_le hcut.length_le
    have hone : (lines t.chunks.flatten).length ≤ 1 := by
      rw [hstatus, List.prefix_concat_iff] at hcut
      rcases hcut with hall | hpart
      · exact (congrArg (fun b => (lines b).length) hall).trans_le (by rw [lines_line hlf []]; rfl)
      · by_cases hnil : t.chunks.flatten = []
        · simp [hnil]
        · rw [lines_last hnil fun hm => hlf (hpart.mem hm)]
          rfl
    rw [OneLine.unread_eq_nil ⟨hne, hone⟩ ⟨ls, hls⟩, hbody]
    exact ⟨rfl, by simp, List.nil_prefix⟩
  · have hline : line = status t.text := by
      rw [hd, hstatus, List.append_assoc, List.singleton_append, lines_line hlf] at hls
      rw [hstatus]
      exact (List.cons.inj hls).1.symm
    refine ⟨hline ▸ hi.1, hne', ?_⟩
    rwa [Transfer.body, hd, List.drop_left]

/-- What one round of the loop of `check_new` does. -/
theorem fetch_succ {i left : ℕ} {cs : List Bytes} {t : Transfer} {ts : List Transfer}
    {messages : List (IncomingMessage ℕ)} (h : fetch i cs (left + 1) (t :: ts) = .ok messages) :
    ∃ line cs₁ raw cs₂ rest, command (cs ++ t.chunks) = .ok (line, cs₁) ∧
      readMultiline (ascii "msg=" ++ decimal i) cs₁ = .ok (raw, cs₂) ∧ fetch (i + 1) cs₂ left ts = .ok rest ∧
      messages = ⟨i, raw⟩ :: rest := by
  obtain ⟨⟨line, cs₁⟩, hc, h⟩ := Except.bind_eq_ok_iff.1 h
  obtain ⟨⟨raw, cs₂⟩, hr, h⟩ := Except.bind_eq_ok_iff.1 h
  obtain ⟨rest, hf, h⟩ := Except.bind_eq_ok_iff.1 h
  exact ⟨line, cs₁, raw, cs₂, rest, hc, hr, hf, (Except.ok.inj h).symm⟩

theorem fetch_succ_nil (i left : ℕ) : ∃ e, fetch i [] (left + 1) [] = .error e := ⟨_, rfl⟩

/-- The messages fetched over intact transfers are those the server numbered. -/
theorem fetch_intact {ms : List Mail} {ts : List Transfer} (hs : List.Forall₂ Sends ms ts)
    (hi : List.Forall₂ Intact ms ts) {i left : ℕ} {messages : List (IncomingMessage ℕ)}
    (h : fetch i [] left ts = .ok messages) :
    ∀ x ∈ messages, ∃ j m, x.id = i + j ∧ ms[j]? = some m ∧ x.raw = m.bytes := by
  induction left generalizing i ms ts messages with
  | zero =>
    obtain rfl := Except.ok.inj h
    simp
  | succ left ih =>
    cases hs with
    | nil =>
      obtain ⟨e, he⟩ := fetch_succ_nil i left
      simp [he] at h
    | cons hmt hs =>
      cases hi with
      | cons hit hi =>
        obtain ⟨line, cs₁, raw, cs₂, rest, hc, hr, hf, rfl⟩ := fetch_succ h
        obtain ⟨hbody, hne, hsent⟩ := command_intact hmt hit hc
        obtain ⟨hraw, rfl⟩ := readMultiline_intact hne (hbody ▸ hsent) (hbody ▸ hit.2) hr
        intro x hx
        rcases List.mem_cons.1 hx with rfl | hx
        · exact ⟨0, _, rfl, rfl, hraw⟩
        · obtain ⟨j, m, hid, hj, hxraw⟩ := ih hs hi hf x hx
          exact ⟨j + 1, m, by omega, by simpa using hj, hxraw⟩

/-- `check_new` over intact transfers: message `i` is the one the server numbered `i`. -/
theorem checkNew_intact {numbering : List Mail} {s : Session} (hs : Serves numbering s)
    (hi : List.Forall₂ Intact numbering s.retr) {messages : List (IncomingMessage ℕ)}
    (h : checkNew s = .ok messages) :
    ∀ x ∈ messages, ∃ m, numbering[x.id - 1]? = some m ∧ x.raw = m.bytes := by
  obtain ⟨hgreeting, huser, hpass, hstat, hretr⟩ := hs
  obtain ⟨greeting, hg, h⟩ := Except.bind_eq_ok_iff.1 h
  obtain ⟨⟨user, cs₁⟩, hu, h⟩ := Except.bind_eq_ok_iff.1 h
  obtain ⟨⟨pass, cs₂⟩, hp, h⟩ := Except.bind_eq_ok_iff.1 h
  obtain ⟨⟨stat, cs₃⟩, hst, h⟩ := Except.bind_eq_ok_iff.1 h
  dsimp only at hu hp hst h
  rw [hgreeting.unread_eq_nil (readLine_ok hg), List.nil_append] at hu
  obtain rfl := huser.command_ok hu
  rw [List.nil_append] at hp
  obtain rfl := hpass.command_ok hp
  rw [List.nil_append] at hst
  obtain rfl := hstat.command_ok hst
  intro x hx
  obtain ⟨j, m, hid, hj, hraw⟩ := fetch_intact hretr hi h x hx
  exact ⟨m, by rwa [hid, Nat.add_sub_cancel_left], hraw⟩

end Antie.Pop3
