import AxiomCarriers.Fatmama.Smtp
import AxiomCarriers.Lib.Stuffing
import AxiomCarriers.Lib.Text

/-!
# One message over an SMTP connection

A client that sends one message writes EHLO, MAIL, RCPT and DATA, the message with its end, and
QUIT; each part after the reply to the one before.  `transfer_step` says what is left to read of it
at every point of the connection: whole commands and the message, or a rest of the QUIT.  So the
server stores what it reads of the message, if anything, and takes none of it for a command
(`transfer_run`).
-/

namespace Fatmama

open Bytes Runs

/-! ## Commands -/

def isUpper (b : UInt8) : Bool := 65 ≤ b && b ≤ 90

/-- What is documented of `strip`, `split` and `upper` on a line: white space alone is stripped
away, and a first word of capital letters is the first word. -/
structure Str.ReadsVerbs (py : Str) : Prop where
  blank : ∀ b, (∀ x ∈ b, isWs x) → py.strip b = []
  verb : ∀ w r, w ≠ [] → (∀ b ∈ w, isUpper b) → (∀ b ∈ r.head?, isWs b) →
    py.strip (w ++ r) ≠ [] ∧ py.upper (verb py (py.strip (w ++ r))) = w

theorem isUpper_lt {b : UInt8} (h : isUpper b) : b < 128 := by
  simp only [isUpper, Bool.and_eq_true, decide_eq_true_eq] at h
  exact UInt8.lt_of_le_of_lt h.2 (by decide)

/-- A command without parameters ends where its word does. -/
theorem isWs_head_crlf : ∀ b ∈ ([CR] ++ [LF]).head?, isWs b := by
  intro b hb
  obtain rfl := Option.mem_some.1 hb
  decide

theorem isWs_of_isUpper {b : UInt8} (h : isUpper b) : ¬ isWs b := by
  have key : ∀ c : BitVec 8, isUpper (UInt8.ofBitVec c) → ¬ isWs (UInt8.ofBitVec c) := by decide
  exact key b.toBitVec h

theorem asciiStr_readsVerbs : asciiStr.ReadsVerbs where
  blank b hb := by
    show (b.dropWhile isWs).rdropWhile isWs = []
    rw [List.dropWhile_eq_nil_iff.2 hb]
    rfl
  verb w r hw hup hr := by
    have hstrip : asciiStr.strip (w ++ r) = w ++ r.rdropWhile isWs :=
      asciiStrip_append hw (fun b hb => isWs_of_isUpper (hup b hb)) r
    have hne : w ++ r.rdropWhile isWs ≠ [] := List.append_ne_nil_of_left_ne_nil hw _
    have hws : ∀ b ∈ w, isWs b = false := fun b hb => by simpa using isWs_of_isUpper (hup b hb)
    have hfirst : verb asciiStr (w ++ r.rdropWhile isWs) = w := by
      show (((w ++ r.rdropWhile isWs).splitOnP isWs).filter (· ≠ [])).headD [] = w
      rcases hr' : r.rdropWhile isWs with _ | ⟨b, r'⟩
      · rw [List.append_nil, List.splitOnP_eq_singleton hws]
        simp [hw]
      · have hb : isWs b := by
          obtain ⟨y, hy⟩ := List.rdropWhile_prefix isWs r
          rw [hr'] at hy
          exact hr b (by rw [← hy]; rfl)
        rw [List.splitOnP_append_cons_of_forall_mem hws b hb]
        simp [hw]
    refine ⟨hstrip ▸ hne, ?_⟩
    rw [hstrip, hfirst]
    have hmap : ∀ b ∈ w, (if 97 ≤ b ∧ b ≤ 122 then b - 32 else b) = b := by
      intro b hb
      have hle := hup b hb
      simp only [isUpper, Bool.and_eq_true, decide_eq_true_eq] at hle
      exact if_neg fun h => absurd (UInt8.le_trans h.1 hle.2) (by decide)
    exact (List.map_congr_left hmap).trans (List.map_id w)

theorem readline_line {x : Bytes} (h : LF ∉ x) (r : Bytes) :
    readline (x ++ LF :: r) = if x.length ≤ streamLimit then some (x ++ [LF], r) else none := by
  simp only [readline, readuntil, cut_byte h]
  by_cases hlen : x.length ≤ streamLimit <;> simp [hlen]

/-- A line that begins with a word of capital letters is read as this command, unless it is too
long. -/
theorem nextCommand_verb {py : Str} (hpy : py.ReadsVerbs) {w x : Bytes} (hw : w ≠ [])
    (hup : ∀ b ∈ w, isUpper b) (hx : LF ∉ x) (hhead : ∀ b ∈ (x ++ [LF]).head?, isWs b) (r : Bytes) :
    nextCommand py (w ++ x ++ LF :: r) = none ∨
      ∃ cmd, nextCommand py (w ++ x ++ LF :: r) = some (cmd, r) ∧ cmd ≠ [] ∧
        py.upper (verb py cmd) = w := by
  have hlf : LF ∉ w ++ x := fun hm =>
    (List.mem_append.1 hm).elim (fun hm => absurd (hup LF hm) (by decide)) hx
  rw [nextCommand, readline_line hlf]
  by_cases hlen : (w ++ x).length ≤ streamLimit
  · refine Or.inr ⟨py.strip (Utf8.lossy (w ++ x ++ [LF])), ?_, ?_⟩
    · rw [if_pos hlen]
      exact if_neg (by simp)
    · obtain ⟨c, y, hcy⟩ := List.exists_cons_of_ne_nil (List.append_ne_nil_of_right_ne_nil x
        (List.cons_ne_nil LF []))
      have hc : isWs c := hhead c (by rw [hcy]; rfl)
      have hlossy : Utf8.lossy (w ++ x ++ [LF]) = w ++ c :: Utf8.lossy y := by
        rw [List.append_assoc, hcy, Utf8.lossy_append_ascii w (isWs_lt hc),
          Utf8.lossy_of_ascii fun b hb => isUpper_lt (hup b hb)]
      rw [hlossy]
      exact hpy.verb w _ hw hup fun b hb => Option.some.inj hb ▸ hc
  · rw [if_neg hlen]
    exact Or.inl rfl

theorem smtpStep_command {c : SmtpConfig} {s : Connection} {rest cmd : Bytes} (halive : s.alive)
    (hcmd : nextCommand c.py s.input = some (cmd, rest)) (hne : cmd ≠ []) (env : Env) :
    smtpStep c s (.command env) = some (handle c env { s with input := rest } cmd) := by
  simp only [smtpStep, hcmd, if_neg hne, halive, not_true, if_false]

/-- Nothing is read. -/
def KeepsInput (s t : Connection) : Prop := t.input = s.input

theorem keepsInput_handleRegister (c : SmtpConfig) (env : Env) (s : Connection) (arg : Bytes) :
    KeepsInput s (handleRegister c env s arg) := by
  unfold handleRegister
  refine iteInduction (fun _ => rfl) fun _ => ?_
  refine iteInduction (fun _ => rfl) fun _ => ?_
  refine iteInduction (fun _ => rfl) fun _ => ?_
  rcases registerRouteOn c.toConfig env.disk s.server (registerAddress c.toConfig arg)
    with ⟨_ | _, server⟩ <;> rfl

theorem keepsInput_handleRcpt (c : SmtpConfig) (s : Connection) (cmd : Bytes) :
    KeepsInput s (handleRcpt c s cmd) := by
  unfold handleRcpt
  exact iteInduction (fun _ => rfl) fun _ => rfl

/-- Only DATA reads more than its line. -/
theorem keepsInput_handle {c : SmtpConfig} {cmd : Bytes}
    (hcmd : c.py.upper (verb c.py cmd) ≠ ascii "DATA") (env : Env) (s : Connection) :
    KeepsInput s (handle c env s cmd) := by
  unfold handle
  refine iteInduction (fun _ => rfl) fun _ => ?_
  refine iteInduction (fun _ => rfl) fun _ => ?_
  refine iteInduction (fun _ => keepsInput_handleRegister c env s _) fun _ => ?_
  refine iteInduction (fun _ => rfl) fun _ => ?_
  refine iteInduction (fun _ => keepsInput_handleRcpt c s cmd) fun _ => ?_
  refine iteInduction (fun h => absurd h hcmd) fun _ => ?_
  refine iteInduction (fun _ => rfl) fun _ => ?_
  refine iteInduction (fun _ => rfl) fun _ => ?_
  exact iteInduction (fun _ => rfl) fun _ => rfl

/-! ## What a client writes -/

/-- The name of the client, and the addresses it names. -/
structure Envelope where
  client : Bytes
  sender : Bytes
  rcpt : Bytes
  lf_notMem : LF ∉ client ∧ LF ∉ sender ∧ LF ∉ rcpt

def Envelope.commands (e : Envelope) : List Bytes :=
  [ascii "EHLO " ++ e.client ++ crlf, ascii "MAIL FROM:<" ++ e.sender ++ ascii ">\r\n",
    ascii "RCPT TO:<" ++ e.rcpt ++ ascii ">\r\n", ascii "DATA\r\n"]

def quitLine : Bytes := ascii "QUIT\r\n"

/-- Everything that the client writes; `text` is the message with its end. -/
def Envelope.writes (e : Envelope) (text : Bytes) : Bytes := e.commands.flatten ++ text ++ quitLine

/-- The commands begin with their words, and DATA is the last. -/
theorem Envelope.command_form {e : Envelope} {l : Bytes} {ls : List Bytes}
    (h : l :: ls <:+ e.commands) : ∃ w x, l = w ++ x ++ [LF] ∧ w ≠ [] ∧ (∀ b ∈ w, isUpper b) ∧
      LF ∉ x ∧ (∀ b ∈ (x ++ [LF]).head?, isWs b) ∧ (ls = [] ↔ w = ascii "DATA") := by
  obtain ⟨hclient, hsender, hrcpt⟩ := e.lf_notMem
  simp only [commands, List.suffix_cons_iff, List.suffix_nil, List.cons.injEq] at h
  have hlf : ∀ a b y : Bytes, LF ∉ a → LF ∉ b → LF ∉ y → LF ∉ a ++ y ++ b :=
    fun a b y ha hb hy => by simp [ha, hb, hy]
  rcases h with ⟨rfl, rfl⟩ | ⟨rfl, rfl⟩ | ⟨rfl, rfl⟩ | ⟨rfl, rfl⟩ | h
  · exact ⟨ascii "EHLO", ascii " " ++ e.client ++ [CR], by simp [ascii], by decide, by decide,
      hlf _ _ _ (by decide) (by decide) hclient, by simp [ascii, isWs], by simp [ascii]⟩
  · exact ⟨ascii "MAIL", ascii " FROM:<" ++ e.sender ++ [62, CR], by simp [ascii], by decide,
      by decide, hlf _ _ _ (by decide) (by decide) hsender, by simp [ascii, isWs], by simp [ascii]⟩
  · exact ⟨ascii "RCPT", ascii " TO:<" ++ e.rcpt ++ [62, CR], by simp [ascii], by decide,
      by decide, hlf _ _ _ (by decide) (by decide) hrcpt, by simp [ascii, isWs], by simp [ascii]⟩
  · exact ⟨ascii "DATA", [CR], by simp [ascii], by decide, by decide, by decide, isWs_head_crlf,
      by decide⟩
  · exact absurd h (List.cons_ne_nil l ls)

/-! ## What is left to read -/

/-- What is left to read: whole commands and the message; the message, on a connection that is lost
in it; or a rest of QUIT, when the message is read. -/
inductive Left (e : Envelope) (text data : Bytes) (t : Connection) : Prop
  | before (ls : List Bytes) (hls : ls <:+ e.commands) (hne : ls ≠ [])
      (input : t.input = ls.flatten ++ (text ++ quitLine)) (log : t.log = [])
  | lost (input : t.input = text ++ quitLine) (alive : ¬ t.alive) (log : t.log = [])
  | after (input : t.input <:+ quitLine)
      (log : ∀ r ∈ t.log, ∀ x ∈ r.stored, x.2 = unstuff data)

/-- Nothing of a rest of QUIT is read as DATA. -/
theorem nextCommand_quit {py : Str} (hpy : py.ReadsVerbs) {q cmd rest : Bytes} (hq : q <:+ quitLine)
    (h : nextCommand py q = some (cmd, rest)) :
    rest <:+ quitLine ∧ (cmd ≠ [] → py.upper (verb py cmd) ≠ ascii "DATA") := by
  have word : ∀ w, w ≠ [] → (∀ b ∈ w, isUpper b) → w ≠ ascii "DATA" → q = w ++ [CR] ++ [LF] →
      rest <:+ quitLine ∧ (cmd ≠ [] → py.upper (verb py cmd) ≠ ascii "DATA") := by
    rintro w hw hup hne rfl
    rcases nextCommand_verb hpy hw hup (x := [CR]) (by decide) isWs_head_crlf [] with hn | ⟨d, hd, -, hv⟩
    · rw [hn] at h
      exact absurd h (by simp)
    · obtain ⟨rfl, rfl⟩ := Prod.mk.inj (Option.some.inj (hd.symm.trans h))
      exact ⟨List.nil_suffix, fun _ => hv ▸ hne⟩
  have blank : ∀ b, (∀ x ∈ b, isWs x) → nextCommand py q = some (py.strip b, []) →
      rest <:+ quitLine ∧ (cmd ≠ [] → py.upper (verb py cmd) ≠ ascii "DATA") := by
    intro b hb hn
    obtain ⟨rfl, rfl⟩ := Prod.mk.inj (Option.some.inj (hn.symm.trans h))
    exact ⟨List.nil_suffix, fun hne => absurd (hpy.blank b hb) hne⟩
  have hcases : q ∈ [ascii "QUIT\r\n", ascii "UIT\r\n", ascii "IT\r\n", ascii "T\r\n", crlf, [LF],
      []] := (List.mem_tails q quitLine).2 hq
  simp only [List.mem_cons, List.not_mem_nil, or_false] at hcases
  rcases hcases with rfl | rfl | rfl | rfl | rfl | rfl | rfl
  · exact word (ascii "QUIT") (by decide) (by decide) (by decide) (by simp [ascii])
  · exact word (ascii "UIT") (by decide) (by decide) (by decide) (by simp [ascii])
  · exact word (ascii "IT") (by decide) (by decide) (by decide) (by simp [ascii])
  · exact word (ascii "T") (by decide) (by decide) (by decide) (by simp [ascii])
  · exact blank crlf (by decide) rfl
  · exact blank [LF] (by decide) rfl
  · exact absurd h (by simp [nextCommand, readline, readuntil, cut])

theorem readData_rest {input before rest : Bytes} (h : cut terminator input = some (before, rest))
    (overread : ℕ) : (readData overread input).2 <:+ rest := by
  simp only [readData, readuntil, h]
  by_cases hl : before.length ≤ streamLimit
  · rw [if_pos hl]
  · rw [if_neg hl, readChunks, h]
    exact List.drop_suffix overread rest

theorem deliver_message {env : Env} {server : State} {rcptTo : Address} {m : Bytes} :
    ∀ x ∈ deliver env server rcptTo m, x.2 = m := by
  unfold deliver
  cases mailboxOf server rcptTo with
  | none => simp
  | some p =>
    dsimp only
    split_ifs <;> simp

theorem handleData_input (c : SmtpConfig) {env : Env} (s : Connection) (hlost : ¬ env.lost) :
    (handleData c env s).input = (readData env.overread s.input).2 := by
  simp only [handleData, if_neg hlost]
  rfl

variable {c : SmtpConfig} {e : Envelope} {text data : Bytes}

/-- The command that is read, or the message, is the next part of what the client writes. -/
theorem transfer_step (hpy : c.py.ReadsVerbs)
    (hcut : cut terminator (text ++ quitLine) = some (data, quitLine)) {s t : Connection}
    {ev : SmtpEvent} (hs : Left e text data s) (h : smtpStep c s ev = some t) :
    Left e text data t := by
  cases ev with
  | lose =>
    obtain rfl := Option.some.inj h
    cases hs with
    | before ls hls hne input log => exact .before ls hls hne input log
    | lost input alive log => exact .lost input (by simp) log
    | after input log => exact .after input log
  | others server =>
    obtain rfl := Option.some.inj h
    cases hs with
    | before ls hls hne input log => exact .before ls hls hne input log
    | lost input alive log => exact .lost input alive log
    | after input log => exact .after input log
  | command env =>
    simp only [smtpStep] at h
    split_ifs at h with halive
    cases hs with
    | lost input alive log => exact absurd alive (by simpa using halive)
    | before ls hls hne input log =>
      obtain ⟨l, ls, rfl⟩ := List.exists_cons_of_ne_nil hne
      obtain ⟨w, x, rfl, hw, hup, hx, hhead, hlast⟩ := Envelope.command_form hls
      have hinput : s.input = w ++ x ++ LF :: (ls.flatten ++ (text ++ quitLine)) := by
        simp [input]
      rcases nextCommand_verb hpy hw hup hx hhead (ls.flatten ++ (text ++ quitLine)) with
        hn | ⟨cmd, hcmd, hne', hverb⟩
      · rw [hinput, hn] at h
        obtain rfl := Option.some.inj h
        exact .before _ hls hne (hinput ▸ input) log
      · rw [hinput, hcmd] at h
        dsimp only at h
        rw [if_neg hne'] at h
        obtain rfl := Option.some.inj h
        by_cases hdata : w = ascii "DATA"
        · rw [hlast.2 hdata, handle_data (hverb.trans hdata)]
          by_cases hlost : env.lost
          · rw [handleData, if_pos hlost]
            exact .lost rfl (by simp) log
          · obtain ⟨hlog, -⟩ := handleData_read c { s with input := text ++ quitLine } hlost
            apply Left.after
            · rw [handleData_input c _ hlost]
              exact readData_rest hcut env.overread
            · intro r hr
              rw [List.flatten_nil, List.nil_append, hlog, log, List.nil_append] at hr
              rw [List.mem_singleton.1 hr, dataReceipt, dataStored, readData_of_cut hcut]
              exact deliver_message
        · have hls' : ls <:+ e.commands := (List.suffix_cons _ ls).trans hls
          have hnd : c.py.upper (verb c.py cmd) ≠ ascii "DATA" := hverb ▸ hdata
          exact .before ls hls' (fun hnil => hdata (hlast.1 hnil)) (keepsInput_handle hnd env _)
            ((quiet_handle hnd env _).1.trans log)
    | after input log =>
      cases hn : nextCommand c.py s.input with
      | none =>
        rw [hn] at h
        obtain rfl := Option.some.inj h
        exact .after input log
      | some p =>
        obtain ⟨cmd, rest⟩ := p
        obtain ⟨hrest, hnd⟩ := nextCommand_quit hpy input hn
        rw [hn] at h
        dsimp only at h
        split_ifs at h with hcmd
        · obtain rfl := Option.some.inj h
          exact .after hrest log
        · obtain rfl := Option.some.inj h
          apply Left.after
          · rw [keepsInput_handle (hnd hcmd) env { s with input := rest }]
            exact hrest
          · rw [(quiet_handle (hnd hcmd) env { s with input := rest }).1]
            exact log

theorem transfer_run (hpy : c.py.ReadsVerbs)
    (hcut : cut terminator (text ++ quitLine) = some (data, quitLine)) {server : State}
    {es : List SmtpEvent} {t : Connection}
    (h : run (smtpStep c) (connected c server (e.writes text)) es = some t) :
    Left e text data t := by
  have hstart : Left e text data (connected c server (e.writes text)) :=
    .before e.commands (List.suffix_refl _) (List.cons_ne_nil _ _)
      (List.append_assoc _ _ _) rfl
  exact run_preserves (fun _ _ _ hs hstep => transfer_step hpy hcut hs hstep) hstart h

/-! ## The message -/

/-- The same text, up to one CR LF at the end. -/
def UpToCrlf (a b : Bytes) : Prop := a = b ∨ a = b ++ crlf ∨ a ++ crlf = b

instance (a b : Bytes) : Decidable (UpToCrlf a b) := by
  unfold UpToCrlf
  infer_instance

theorem terminator_eq : terminator = dotLine := rfl

theorem unstuff_eq (data : Bytes) :
    unstuff data = crlf.intercalate ((splitCrlf data).map dropDot) := rfl

theorem splitCrlf_unstuff (data : Bytes) :
    splitCrlf (unstuff data) = (splitCrlf data).map dropDot := by
  refine splitCrlf_intercalate (by simpa using splitCrlf_ne_nil data) fun l hl => ?_
  obtain ⟨p, hp, rfl⟩ := List.mem_map.1 hl
  exact piece_dropDot (piece_of_mem_splitCrlf hp)

/-- The receiver takes a text as it is where no line begins with two dots. -/
theorem upToCrlf_unstuff_iff (raw : Bytes) :
    UpToCrlf (unstuff raw) raw ↔ ∀ l ∈ splitCrlf raw, ¬ [dot, dot] <+: l := by
  have hlen : (splitCrlf (unstuff raw)).length = (splitCrlf raw).length := by
    rw [splitCrlf_unstuff, List.length_map]
  have hcrlf : ∀ x, (splitCrlf (x ++ crlf)).length = (splitCrlf x).length + 1 := by
    intro x
    have h := splitCrlf_append_crlf x []
    rw [List.append_nil] at h
    rw [h, splitCrlf_nil, List.length_append]
    rfl
  have hself : unstuff raw = raw ↔ ∀ l ∈ splitCrlf raw, ¬ [dot, dot] <+: l := by
    constructor
    · intro h l hl
      have hmap := splitCrlf_unstuff raw
      rw [h] at hmap
      have hid : (splitCrlf raw).map dropDot = (splitCrlf raw).map id :=
        hmap.symm.trans (List.map_id _).symm
      exact dropDot_eq_self_iff.1 (List.map_inj_left.1 hid l hl)
    · intro h
      rw [unstuff_eq, List.map_congr_left fun l hl => dropDot_eq_self_iff.2 (h l hl)]
      simp [intercalate_splitCrlf]
  rw [← hself]
  constructor
  · rintro (h | h | h)
    · exact h
    · rw [h, hcrlf] at hlen
      omega
    · rw [← h, hcrlf, h] at hlen
      omega
  · exact Or.inl

/-! ## A transfer -/

def sampleEnvelope : Envelope := ⟨ascii "c", ascii "b@axiom", ascii "a@axiom", by decide⟩

/-- A server with a mailbox for the recipient. -/
def sampleServer : State := ⟨[(ascii "a@axiom", [ascii "m"])], [], []⟩

def sampleOut : List Bytes :=
  [ascii "220 host FATMAMA\r\n", ascii "250-host\r\n", ascii "250 XAXIOM-FATMAMA\r\n",
    ascii "250 OK\r\n", ascii "250 OK\r\n"]

/-- The connection when DATA is read. -/
def sampleData (text : Bytes) : Connection :=
  ⟨sampleServer, true, text ++ quitLine, ascii "a@axiom", ascii "b@axiom", sampleOut,
    [ascii "a@axiom"], []⟩

theorem handle_rcpt {c : SmtpConfig} {cmd : Bytes}
    (hcmd : c.py.upper (verb c.py cmd) = ascii "RCPT") (env : Env) (s : Connection) :
    handle c env s cmd = handleRcpt c s cmd := by
  have h : ∀ w ∈ [ascii "EHLO", ascii "HELO", ascii "XAXIOM-REGISTER", ascii "MAIL"],
      ascii "RCPT" ≠ w := by decide
  simp only [List.forall_mem_cons] at h
  obtain ⟨h₁, h₂, h₃, h₄, -⟩ := h
  simp only [handle, hcmd, if_neg h₁, if_neg h₂, if_neg h₃, if_neg h₄, if_true]

theorem sample_ehlo (s : Connection) :
    handle smtpConfig goodEnv s (ascii "EHLO c") =
      (s.reply (ascii "250-host\r\n")).reply (ascii "250 XAXIOM-FATMAMA\r\n") := rfl

theorem sample_mail (s : Connection) :
    handle smtpConfig goodEnv s (ascii "MAIL FROM:<b@axiom>") =
      Connection.reply { s with mailFrom := ascii "b@axiom", accepted := [] }
        (ascii "250 OK\r\n") := rfl

theorem sample_rcpt (s : Connection) :
    handle smtpConfig goodEnv s (ascii "RCPT TO:<a@axiom>") =
      Connection.reply { s with rcptTo := ascii "a@axiom", accepted := s.accepted ++ [ascii "a@axiom"] }
        (ascii "250 OK\r\n") := by
  have haddr : rcptAddress smtpConfig.py s.rcptTo (ascii "RCPT TO:<a@axiom>") = ascii "a@axiom" := rfl
  have hcluster : isClusterRecipient smtpConfig.py smtpConfig.domains (ascii "a@axiom") := by decide
  have hne : ascii "a@axiom" ≠ [] := by decide
  rw [handle_rcpt (by decide)]
  simp only [handleRcpt, haddr, hcluster, not_true, and_false, if_false, ne_eq, if_neg hne]

theorem sample_run (text : Bytes) :
    run (smtpStep smtpConfig) (connected smtpConfig sampleServer (sampleEnvelope.writes text))
      (List.replicate 4 (.command goodEnv)) =
      some (handleData smtpConfig goodEnv (sampleData text)) := by
  have step : ∀ {line cmd rest : Bytes} (s : Connection), s.alive → s.input = line ++ rest →
      nextCommand asciiStr (line ++ rest) = some (cmd, rest) → cmd ≠ [] →
      smtpStep smtpConfig s (.command goodEnv) =
        some (handle smtpConfig goodEnv { s with input := rest } cmd) :=
    fun s halive hinput hcmd hne => smtpStep_command halive (hinput ▸ hcmd) hne goodEnv
  have hehlo : ∀ r, nextCommand asciiStr (ascii "EHLO c\r\n" ++ r) = some (ascii "EHLO c", r) :=
    fun _ => rfl
  have hmail : ∀ r, nextCommand asciiStr (ascii "MAIL FROM:<b@axiom>\r\n" ++ r) =
      some (ascii "MAIL FROM:<b@axiom>", r) := fun _ => rfl
  have hrcpt : ∀ r, nextCommand asciiStr (ascii "RCPT TO:<a@axiom>\r\n" ++ r) =
      some (ascii "RCPT TO:<a@axiom>", r) := fun _ => rfl
  have hdata : ∀ r, nextCommand asciiStr (ascii "DATA\r\n" ++ r) = some (ascii "DATA", r) :=
    fun _ => rfl
  have hwrites : sampleEnvelope.writes text = ascii "EHLO c\r\n" ++ (ascii "MAIL FROM:<b@axiom>\r\n" ++
      (ascii "RCPT TO:<a@axiom>\r\n" ++ (ascii "DATA\r\n" ++ (text ++ quitLine)))) := by
    simp [Envelope.writes, Envelope.commands, sampleEnvelope, ascii]
  refine run_cons_iff.2 ⟨_, step _ rfl hwrites (hehlo _) (by decide), ?_⟩
  rw [sample_ehlo]
  refine run_cons_iff.2 ⟨_, step _ rfl rfl (hmail _) (by decide), ?_⟩
  rw [sample_mail]
  refine run_cons_iff.2 ⟨_, step _ rfl rfl (hrcpt _) (by decide), ?_⟩
  rw [sample_rcpt]
  refine run_cons_iff.2 ⟨_, step _ rfl rfl (hdata _) (by decide), ?_⟩
  rw [handle_data (by decide)]
  rfl

theorem readData_zero {input before rest : Bytes} (h : cut terminator input = some (before, rest)) :
    readData 0 input = (before, rest) := by
  simp only [readData, readuntil, h]
  by_cases hl : before.length ≤ streamLimit
  · rw [if_pos hl]
  · rw [if_neg hl, readChunks, h]
    rfl

/-- The transfer of a message for a recipient with a mailbox. -/
theorem sample_transfer (text : Bytes) {data rest : Bytes}
    (h : cut terminator (text ++ quitLine) = some (data, rest)) :
    ∃ t, run (smtpStep smtpConfig) (connected smtpConfig sampleServer (sampleEnvelope.writes text))
        (List.replicate 4 (.command goodEnv)) = some t ∧ t.alive ∧ t.input = rest ∧
      t.out = sampleOut ++ [ascii "354 Go\r\n"] ++ [ascii "250 OK\r\n"] ∧
      ∃ r ∈ t.log, ([ascii "m"], unstuff data) ∈ r.stored := by
  have hlost : ¬ goodEnv.lost := by decide
  have hread : readData goodEnv.overread (text ++ quitLine) = (data, rest) := readData_zero h
  refine ⟨_, sample_run text, ?_⟩
  simp only [handleData, if_neg hlost, sampleData, Connection.reply, hread]
  exact ⟨trivial, trivial, trivial, _, List.mem_singleton.2 rfl, List.mem_singleton.2 rfl⟩

end Fatmama
