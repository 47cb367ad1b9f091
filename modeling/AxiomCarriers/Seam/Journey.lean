import AxiomCarriers.Antie.Pop3Stream
import AxiomCarriers.Antie.Subject
import AxiomCarriers.Fatmama.CrossSite
import AxiomCarriers.Seam.Retr
import AxiomCarriers.Seam.Submission

/-!
# The way of a mail

A mail goes from the ANTIE that has built it into a mailbox of a FATMAMA, from one FATMAMA to the
next, and over POP3 into the inbox of another ANTIE.  Each of the three transfers changes some
texts: lines with dots, or a CR LF at the end.  The mails which the builders write are not among
them, whatever they are written with.  `built_mail_arrives` follows them from the builder through a
whole POP3 session: `check_new` returns them byte for byte, as long as no reader of a status line
takes bytes behind it.
-/

namespace Seam

open Bytes Text Runs Headers Antie.Pop3 Antie.Outgoing Fatmama
open Utf8 (Valid valid_iff_lines)
open Fatmama.Pop3 (retrBody Pop3Config listing)

/-! ## The lines of a mail -/

theorem splitCrlf_mail {ls : List Bytes} (h : ∀ l ∈ ls, IsLine l) {x : Bytes} (hx : LF ∉ x) :
    splitCrlf (written ls (x ++ crlf)) = ls ++ [[], x, []] := by
  induction ls with
  | nil =>
    show splitCrlf (crlf ++ (x ++ crlf)) = _
    rw [splitCrlf_crlf, ← List.append_nil (x ++ crlf), splitCrlf_piece (piece_of_lf hx),
      splitCrlf_nil]
    rfl
  | cons l ls ih =>
    rw [List.forall_mem_cons] at h
    have hwritten : written (l :: ls) (x ++ crlf) = l ++ crlf ++ written ls (x ++ crlf) := by
      rw [written, written, List.flatMap_cons, List.append_assoc]
    rw [hwritten, splitCrlf_piece (piece_of_lf h.1.2.2), ih h.2]
    rfl

theorem lines_mail {ls : List Bytes} (h : ∀ l ∈ ls, IsLine l) {x : Bytes} (hx : LF ∉ x) :
    lines (written ls (x ++ crlf)) = (ls ++ [[], x]).map (· ++ crlf) := by
  induction ls with
  | nil =>
    show lines ([] ++ crlf ++ (x ++ crlf)) = _
    rw [lines_crlf List.not_mem_nil, ← List.append_nil (x ++ crlf), lines_crlf hx, lines_nil]
    rfl
  | cons l ls ih =>
    rw [List.forall_mem_cons] at h
    have hwritten : written (l :: ls) (x ++ crlf) = l ++ crlf ++ written ls (x ++ crlf) := by
      rw [written, written, List.flatMap_cons, List.append_assoc]
    rw [hwritten, lines_crlf h.1.2.2, ih h.2]
    rfl

/-! ## Lines without a dot in front -/

/-- The line begins with a letter, or there is no dot in it. -/
def Lettered (l : Bytes) : Prop := (∃ c r, l = c :: r ∧ isUpper c) ∨ dot ∉ l

theorem Lettered.no_dots {l : Bytes} (h : Lettered l) : ¬ [dot] <+: l := by
  intro hp
  obtain ⟨r, rfl⟩ := hp
  rcases h with ⟨c, r', hc, hupper⟩ | hdot
  · obtain ⟨rfl, -⟩ := List.cons.inj hc
    exact absurd hupper (by decide)
  · exact hdot (by simp)

theorem Lettered.append_crlf {l : Bytes} (h : Lettered l) : Lettered (l ++ crlf) := by
  rcases h with ⟨c, r, rfl, hupper⟩ | hdot
  · exact .inl ⟨c, r ++ crlf, rfl, hupper⟩
  · refine .inr fun hmem => ?_
    rcases List.mem_append.1 hmem with hmem | hmem
    · exact hdot hmem
    · exact absurd hmem (by decide)

theorem Lettered.not_isDot {l : Bytes} (h : Lettered l) : ¬ isDot l := by
  intro hd
  have htrim : trim l = [dot] := of_decide_eq_true hd
  rcases h with ⟨c, r, rfl, hupper⟩ | hdot
  · have hword : ∀ b ∈ [c], b < 128 ∧ ¬ isWs b := by
      intro b hb
      rw [List.mem_singleton.1 hb]
      exact ⟨isUpper_lt hupper, isWs_of_isUpper hupper⟩
    have hpre := prefix_trim hword r
    rw [List.singleton_append, htrim] at hpre
    obtain ⟨rfl, -⟩ := List.cons_prefix_cons.1 hpre
    exact absurd hupper (by decide)
  · apply hdot
    apply (trim_sublist l).subset
    rw [htrim]
    exact List.mem_singleton.2 rfl

theorem plain_of_lettered {raw : Bytes} (h : ∀ l ∈ splitCrlf raw, Lettered l) : Plain raw := by
  refine ⟨fun l hl hdots => ?_, fun hmem => ?_⟩
  · exact (h l hl).no_dots ((List.prefix_append [dot] [dot]).trans hdots)
  · exact (h _ (List.mem_of_mem_tail hmem)).no_dots (List.prefix_refl _)

/-! ## The mails of the builders -/

theorem lettered_append {w : Bytes} (h : ∃ c r, w = c :: r ∧ isUpper c) (x : Bytes) :
    Lettered (w ++ x) := by
  obtain ⟨c, r, rfl, hupper⟩ := h
  exact .inl ⟨c, r ++ x, rfl, hupper⟩

/-- Every header line begins with the name of its field. -/
theorem lettered_headers (recipient sender : Bytes) (stamp : Stamp) (b : Builder) :
    ∀ l ∈ b.headers recipient sender stamp, Lettered l := by
  have hname : ∀ name ∈ [ascii "From: ", ascii "To: ", ascii "Subject: AXIOM/",
      ascii "Message-ID: <", ascii "Date: ", ascii "Content-Type: text/plain; charset=utf-8",
      ascii "In-Reply-To: "], ∃ c r, name = c :: r ∧ isUpper c := by
    intro name hname
    simp only [List.mem_cons, List.not_mem_nil, or_false] at hname
    rcases hname with rfl | rfl | rfl | rfl | rfl | rfl | rfl <;> exact ⟨_, _, rfl, by decide⟩
  simp only [List.forall_mem_cons] at hname
  obtain ⟨hfrom, hto, hsubject, hid, hdate, htype, hreply, -⟩ := hname
  intro l hl
  rcases List.mem_append.1 hl with hl | hl
  · simp only [List.mem_cons, List.not_mem_nil, or_false] at hl
    rcases hl with rfl | rfl | rfl | rfl | rfl | rfl
    · exact lettered_append hfrom _
    · exact lettered_append hto _
    · exact lettered_append hsubject _
    · simp only [List.append_assoc]
      exact lettered_append hid _
    · exact lettered_append hdate _
    · exact .inl htype
  · obtain ⟨id, -, rfl⟩ := List.mem_map.1 hl
    exact lettered_append hreply _

/-- What is known of a mail that a builder has written: its lines, and its end. -/
structure Written (mail : Bytes) : Prop where
  lines : ∀ l ∈ lines mail, Lettered l
  pieces : ∀ l ∈ splitCrlf mail, Lettered l
  /-- It ends in one CR LF. -/
  last : ∃ text, mail = text ++ crlf ∧ ¬ crlf <:+ text

theorem written_of_run {b : Builder} {recipient sender : Bytes} {stamp : Stamp} {cbor mail : Bytes}
    (hstamp : stamp.Clean) (hcbor : cbor ≠ []) (h : b.run recipient sender stamp cbor = .ok mail) :
    Written mail := by
  have hlines : ∀ l ∈ b.headers recipient sender stamp, IsLine l :=
    isLine_headerLines (b.unbroken_subject hstamp) hstamp recipient sender b.inReplyTo
  have hbase : ∀ c : UInt8, Base64.value c = none → c ≠ Base64.pad → c ∉ Base64.encode cbor :=
    fun c hvalue hpad hmem => (Base64.mem_encode hmem).elim (fun hs => by simp [hvalue] at hs) hpad
  have hlf : LF ∉ Base64.encode cbor := hbase LF (by decide) (by decide)
  have hdot : dot ∉ Base64.encode cbor := hbase dot (by decide) (by decide)
  have hall : ∀ l ∈ b.headers recipient sender stamp ++ [[], Base64.encode cbor], Lettered l := by
    intro l hl
    rcases List.mem_append.1 hl with hl | hl
    · exact lettered_headers recipient sender stamp b l hl
    · simp only [List.mem_cons, List.not_mem_nil, or_false] at hl
      rcases hl with rfl | rfl
      · exact .inr List.not_mem_nil
      · exact .inr hdot
  rw [Builder.run_eq h]
  refine ⟨fun l hl => ?_, fun l hl => ?_, ?_⟩
  · rw [lines_mail hlines hlf] at hl
    obtain ⟨x, hx, rfl⟩ := List.mem_map.1 hl
    exact (hall x hx).append_crlf
  · rw [splitCrlf_mail hlines hlf, List.append_cons, List.append_cons, List.mem_append] at hl
    rcases hl with hl | hl
    · exact hall l (by simpa using hl)
    · rw [List.mem_singleton.1 hl]
      exact .inr List.not_mem_nil
  · refine ⟨(b.headers recipient sender stamp).flatMap (· ++ crlf) ++ (crlf ++ Base64.encode cbor),
      by simp [written], fun hsuf => hlf ?_⟩
    have hne : Base64.encode cbor ≠ [] := fun he => hcbor (Base64.encode_eq_nil_iff.1 he)
    rw [← List.append_assoc] at hsuf
    -- the last byte is one of the base64 text
    obtain ⟨r, hr⟩ := hsuf
    have hlast := congrArg List.getLast? hr
    rw [List.getLast?_append_of_ne_nil _ hne, List.getLast?_append_of_ne_nil _ (by decide)] at hlast
    exact List.mem_of_getLast? hlast.symm

/-! ## The hops -/

/-- A FATMAMA stores a text of what a client writes to it behind DATA. -/
def Stores (text stored : Bytes) : Prop :=
  ∃ (c : SmtpConfig) (server : Fatmama.State) (e : Envelope) (es : List SmtpEvent) (t : Connection),
    c.py.ReadsVerbs ∧ run (smtpStep c) (connected c server (e.writes text)) es = some t ∧
      ∃ r ∈ t.log, ∃ path, (path, stored) ∈ r.stored

theorem stores_cut {text data stored : Bytes} (hcut : cut terminator (text ++ quitLine) =
    some (data, quitLine)) (h : Stores text stored) : stored = Fatmama.unstuff data := by
  obtain ⟨c, server, e, es, t, hpy, hrun, r, hr, path, hx⟩ := h
  cases transfer_run hpy hcut hrun with
  | before ls hls hne input log => simp [log] at hr
  | lost input alive log => simp [log] at hr
  | after input log => exact log r hr _ hx

/-- A mail without a dot in front of a line is stored as it is. -/
theorem stores_sendText {mail stored : Bytes} (h : ∀ l ∈ splitCrlf mail, Lettered l)
    (hstored : Stores (sendText mail) stored) : stored = mail := by
  obtain ⟨hdots, hdot⟩ := plain_of_lettered h
  rw [stores_cut (cut_dotLine hdot quitLine) hstored, unstuff_eq,
    List.map_congr_left fun l hl => dropDot_eq_self_iff.2 (hdots l hl)]
  simp [intercalate_splitCrlf]

/-- A site passes a text on as it is, or without its last CR LF. -/
theorem stores_crossSiteText {raw stored : Bytes} (h : ¬ [dot] <+: raw)
    (hstored : Stores (crossSiteText raw) stored) : raw = stored ∨ raw = stored ++ crlf := by
  obtain ⟨r, hr, htext⟩ := crossSiteText_eq raw
  have hself : dropDot r = r := by
    refine dropDot_eq_self_iff.2 fun hdots => h ?_
    apply ((List.prefix_append [dot] [dot]).trans hdots).trans
    rcases hr with rfl | rfl
    · exact List.prefix_refl _
    · exact List.prefix_append r crlf
  rw [stores_cut (cut_crossSiteText htext quitLine) hstored, unstuff_stuffDots, hself]
  exact hr

/-- The copies of a mail on its way. -/
inductive Copy (mail : Bytes) : Bytes → Prop
  /-- ANTIE has written it into an outbox. -/
  | outbox : Copy mail mail
  /-- `SmtpCarrier::send`. -/
  | submitted {x : Bytes} (h : Stores (sendText mail) x) : Copy mail x
  /-- `cross_site_deliver`. -/
  | passedOn {x y : Bytes} (hx : Copy mail x) (h : Stores (crossSiteText x) y) : Copy mail y

/-- On its way a mail loses its last CR LF, and nothing else. -/
theorem Copy.eq_or {mail x : Bytes} (hmail : Written mail) (h : Copy mail x) :
    x = mail ∨ x ++ crlf = mail := by
  obtain ⟨text, htext, hend⟩ := hmail.last
  have hdot : ∀ y, y = mail ∨ y ++ crlf = mail → ¬ [dot] <+: y := by
    intro y hy hp
    have hmaildot : [dot] <+: mail := by
      rcases hy with rfl | rfl
      · exact hp
      · exact hp.trans (List.prefix_append y crlf)
    obtain ⟨l, ls, hsplit, -, hhead⟩ := prefix_splitCrlf mail
    have hl : Lettered l := hmail.pieces l (hsplit ▸ List.mem_cons_self)
    apply hl.no_dots
    rw [dot_prefix_iff_head?] at hmaildot ⊢
    exact hhead.2 hmaildot
  induction h with
  | outbox => exact .inl rfl
  | submitted h => exact .inl (stores_sendText hmail.pieces h)
  | passedOn hx h ih =>
    rename_i x y
    rcases stores_crossSiteText (hdot x ih) h with rfl | rfl
    · exact ih
    · rcases ih with hx | hx
      · exact .inr hx
      · -- the text has no second CR LF at its end
        rw [htext, List.append_cancel_right_eq] at hx
        exact absurd (hx ▸ List.suffix_append y crlf) hend

/-! ## The mailbox -/

/-- The file is a copy of a mail that some builder has written. -/
def Arrives (mail x : Bytes) : Prop :=
  ∃ (b : Builder) (recipient sender : Bytes) (stamp : Stamp) (cbor : Bytes),
    stamp.Clean ∧ cbor ≠ [] ∧ b.run recipient sender stamp cbor = .ok mail ∧ Valid mail ∧ Copy mail x

/-- What FATMAMA sends for such a file is the mail and the final dot. -/
theorem Arrives.lines_retrBody {mail x : Bytes} (h : Arrives mail x) :
    (∀ l ∈ lines mail, Valid l ∧ Lettered l) ∧
      lines (retrBody x) = lines mail ++ [ascii ".\r\n"] ∧
        ∀ r, lines (retrBody x ++ r) = lines (retrBody x) ++ lines r := by
  obtain ⟨b, recipient, sender, stamp, cbor, hstamp, hcbor, hrun, hvalid, hcopy⟩ := h
  have hmail := written_of_run hstamp hcbor hrun
  obtain ⟨text, htext, hend⟩ := hmail.last
  have hcrlf : withCrlf x = mail := by
    rcases hcopy.eq_or hmail with rfl | hx
    · exact if_pos (htext ▸ List.suffix_append text crlf)
    · rw [htext, List.append_cancel_right_eq] at hx
      rw [withCrlf, if_neg (hx ▸ hend), hx, htext]
  have hself : ∀ (ls : List Bytes) (fresh : Bool), (∀ l ∈ ls, Lettered l) →
      stuffLines fresh ls = ls := by
    intro ls
    induction ls with
    | nil => exact fun _ _ => rfl
    | cons l ls ih =>
      intro fresh hls
      rw [List.forall_mem_cons] at hls
      rw [stuffLines, ih _ hls.2, stuffLine_eq_self]
      exact fun hdot => hls.1.no_dots ((dot_prefix_iff_head? l).2 hdot.2)
  have hlines : lines (stuffText true mail) = lines mail := by
    rw [lines_stuffText, hself _ true hmail.lines]
  have hlf : [LF] <:+ stuffText true mail := by
    obtain ⟨r, hr⟩ := crlf_suffix_withCrlf x
    rw [← hcrlf, stuffText, ← hr, stuffDots_append_crlf, ← List.append_assoc]
    exact (List.suffix_cons CR [LF]).trans (List.suffix_append _ crlf)
  have hdot : [LF] <:+ retrBody x := (List.suffix_append (ascii ".\r") [LF]).trans
    (retrBody_eq x ▸ List.suffix_append _ (ascii ".\r\n"))
  refine ⟨fun l hl => ⟨(valid_iff_lines mail).1 hvalid l hl, hmail.lines l hl⟩, ?_,
    fun r => lines_append (.inr hdot) r⟩
  rw [retrBody_eq, hcrlf, lines_append (.inr hlf), hlines]
  rfl

/-- A mail is read to its final dot, whatever follows. -/
theorem multiline_lettered (what : Bytes) {ls : List Bytes} (h : ∀ l ∈ ls, Valid l ∧ Lettered l)
    (rest : List Bytes) : multiline what (ls ++ ascii ".\r\n" :: rest) =
      .ok (ls.flatten, (ls ++ [ascii ".\r\n"]).flatten.length) := by
  induction ls with
  | nil =>
    have hdot : isDot (ascii ".\r\n") := by decide +kernel
    have hvalid : Valid (ascii ".\r\n") := by decide
    simp [multiline, hvalid, hdot]
  | cons l ls ih =>
    obtain ⟨⟨hvalid, hlet⟩, hls⟩ := List.forall_mem_cons.1 h
    have hself : Antie.Pop3.unstuff l = l := by
      rw [unstuff_eq_dropDot, dropDot_eq_self_iff]
      exact fun hdots => hlet.no_dots ((List.prefix_append [dot] [dot]).trans hdots)
    rw [List.cons_append, multiline, if_neg (not_not.2 hvalid), if_neg hlet.not_isDot, ih hls,
      hself]
    simp [Except.map]

/-- The lines in which FATMAMA sends these files, each with its status line. -/
def sentLines (files : List Bytes) : List Bytes :=
  files.flatMap fun x =>
    (ascii "+OK " ++ decimal x.length ++ ascii " octets" ++ crlf) :: lines (retrBody x)

/-- One line of text. -/
def OneText (x : Bytes) : Prop := Valid x ∧ LF ∉ x

theorem OneText.append {x y : Bytes} (hx : OneText x) (hy : OneText y) : OneText (x ++ y) :=
  ⟨hx.1.append hy.1, by simp [hx.2, hy.2]⟩

theorem oneText_decimal (n : ℕ) : OneText (decimal n) :=
  ⟨Utf8.lossy_eq_self_iff.1 (Utf8.lossy_of_ascii fun b hb => (decimal_word n b hb).1),
    notMem_decimal (by decide) n⟩

/-- A positive reply, of one line. -/
def Positive (l : Bytes) : Prop := ∃ x, OneText x ∧ l = ascii "+OK " ++ x ++ crlf

theorem Positive.lines_append {l : Bytes} (h : Positive l) (r : Bytes) :
    lines (l ++ r) = l :: lines r := by
  obtain ⟨x, hx, rfl⟩ := h
  have hok : OneText (ascii "+OK ") := ⟨rfl, by decide⟩
  exact lines_crlf (hok.append hx).2 r

theorem Positive.goesOn {l : Bytes} (h : Positive l) : GoesOn l := by
  obtain ⟨x, hx, rfl⟩ := h
  have hok : Valid (ascii "+OK ") := rfl
  exact ⟨(hok.append hx.1).append (rfl : Valid crlf), by simp [ascii]⟩

theorem positive_octets (n : ℕ) : Positive (ascii "+OK " ++ decimal n ++ ascii " octets" ++ crlf) :=
  ⟨decimal n ++ ascii " octets", (oneText_decimal n).append ⟨rfl, by decide⟩, by simp⟩

theorem lines_sentLines {mails files : List Bytes} (h : List.Forall₂ Arrives mails files) :
    lines (sentLines files).flatten = sentLines files := by
  induction h with
  | nil => rfl
  | @cons mail x mails files hx _ ih =>
    have hflat : (sentLines (x :: files)).flatten =
        ascii "+OK " ++ decimal x.length ++ ascii " octets" ++ crlf ++
          (retrBody x ++ (sentLines files).flatten) := by
      simp [sentLines, flatten_lines]
    rw [hflat, (positive_octets _).lines_append, hx.lines_retrBody.2.2, ih]
    rfl

/-- A command takes the line of its reply. -/
theorem command_chunk {l : Bytes} {ls : List Bytes} (hl : lines (l :: ls).flatten = l :: ls)
    (hgo : GoesOn l) : command (l :: ls) = .ok (l, ls) := by
  have hne : ∀ c ∈ [l], c ≠ [] := by
    intro c hc
    rw [List.mem_singleton.1 hc]
    exact ne_nil_of_mem_lines (hl.symm ▸ List.mem_cons_self : l ∈ lines (l :: ls).flatten)
  have hcut : Antie.unread l.length (l :: ls) = ls := by simpa using unread_append hne ls
  rw [command_line hl hgo, hcut]

/-- The messages of the session are the mails. -/
theorem fetch_sentLines {mails files : List Bytes} (h : List.Forall₂ Arrives mails files) (i : ℕ) :
    fetch i (sentLines files) files.length [] =
      .ok (mails.mapIdx fun k mail => ⟨i + k, mail⟩) := by
  induction h generalizing i with
  | nil => rfl
  | @cons mail x mails files hx hfiles ih =>
    obtain ⟨hmail, hlines, happend⟩ := hx.lines_retrBody
    have hall := lines_sentLines (.cons hx hfiles)
    have hsent : sentLines (x :: files) =
        (ascii "+OK " ++ decimal x.length ++ ascii " octets" ++ crlf) ::
          (lines (retrBody x) ++ sentLines files) := rfl
    have hrest : lines (lines (retrBody x) ++ sentLines files).flatten =
        lines (retrBody x) ++ sentLines files := by
      rw [List.flatten_append, flatten_lines, happend, lines_sentLines hfiles]
    have hread : readMultiline (ascii "msg=" ++ decimal i) (lines (retrBody x) ++ sentLines files) =
        .ok (mail, sentLines files) := by
      have hne : ∀ c ∈ lines mail ++ [ascii ".\r\n"], c ≠ [] := by
        rw [← hlines]
        exact fun c hc => ne_nil_of_mem_lines hc
      have htext := multiline_lettered (ascii "POP3 RETR " ++ (ascii "msg=" ++ decimal i)) hmail
        (sentLines files)
      have hcut := unread_append hne (sentLines files)
      rw [readMultiline, hrest, hlines, List.append_assoc, List.singleton_append, htext]
      rw [List.append_assoc, List.singleton_append] at hcut
      rw [flatten_lines]
      exact congrArg (fun cs => Except.ok (mail, cs)) hcut
    have htail : (mails.mapIdx fun k mail => (⟨i + (k + 1), mail⟩ : Antie.IncomingMessage ℕ)) =
        mails.mapIdx fun k mail => ⟨i + 1 + k, mail⟩ := by
      congr 1
      funext k mail
      rw [Nat.add_right_comm, Nat.add_assoc]
    simp only [List.length_cons, fetch, List.head?_nil, Option.map_none, Option.getD_none,
      List.append_nil, List.tail_nil]
    rw [hsent, command_chunk (hsent ▸ hall) (positive_octets _).goesOn]
    simp only [bind, Except.bind, hread, ih (i + 1)]
    rw [List.mapIdx_cons, htail]
    rfl

/-- What `check_new` asks for in a mailbox of so many messages. -/
def fetchCommands (user pass : Bytes) (n : ℕ) : List (Bytes × List Bytes) :=
  [(ascii "USER", [user]), (ascii "PASS", [pass]), (ascii "STAT", [])] ++
    (List.range' 1 n).map fun i => (ascii "RETR", [decimal i])

/-- A connection after it has answered the commands. -/
def answered (c : Pop3Config) (s : Fatmama.Pop3.Connection) (cmds : List (Bytes × List Bytes)) :
    Fatmama.Pop3.Connection :=
  cmds.foldl (fun s cmd => Fatmama.Pop3.handle c [] s cmd.1 cmd.2) s

/-- What FATMAMA sends to the ANTIE that fetches the mailbox. -/
def session (c : Pop3Config) (server : Fatmama.State) (user pass : Bytes) : Bytes :=
  (answered c (Fatmama.Pop3.connected c server [])
    (fetchCommands user pass (listing server (c.py.lower user)).length)).out.flatten

/-- The answers to RETR, one message after the other. -/
theorem answered_retr {c : Pop3Config} {s : Fatmama.Pop3.Connection}
    (hint : ∀ n ≤ s.snapshot.length, c.int (decimal n) = some (n : ℤ)) (hauthed : s.authed)
    (hdeleted : s.deleted = [])
    (hsize : ∀ m ∈ s.snapshot, m.2 = ((Table.get s.server.files m.1).getD []).length)
    {server : Fatmama.State} (hserver : s.server = server) {ms : List (Fatmama.Path × ℕ)} {k : ℕ}
    (hms : s.snapshot.drop k = ms) {files : List Bytes}
    (hfiles : List.Forall₂ (fun m x => Table.get server.files m.1 = some x) ms files) :
    (answered c s ((List.range' (k + 1) files.length).map fun i =>
        (ascii "RETR", [decimal i]))).out.flatten = s.out.flatten ++ (sentLines files).flatten := by
  induction hfiles generalizing k s with
  | nil => simp [answered, sentLines]
  | @cons m x ms files hx hfiles ih =>
    have hm : s.snapshot[k]? = some m := by
      rw [← List.head?_drop, hms]
      rfl
    have hlt : k < s.snapshot.length := (List.getElem?_eq_some_iff.1 hm).1
    have hbound : 1 ≤ ((k + 1 : ℕ) : ℤ) ∧ ((k + 1 : ℕ) : ℤ) ≤ s.snapshot.length := by omega
    have hlen : m.2 = x.length := by
      rw [hsize m (List.mem_of_getElem? hm), hserver, hx]
      rfl
    have hstep : Fatmama.Pop3.handle c [] s (ascii "RETR") [decimal (k + 1)] =
        { s with out := s.out ++ [ascii "+OK " ++ decimal x.length ++ ascii " octets" ++ crlf] ++
          [retrBody x] } := by
      have hretr : Fatmama.Pop3.handle c [] s (ascii "RETR") [decimal (k + 1)] =
          Fatmama.Pop3.handleRetr c s (ascii "RETR") [decimal (k + 1)] := by
        unfold Fatmama.Pop3.handle
        simp only [hauthed, not_true_eq_false, if_false]
        rfl
      rw [hretr, Fatmama.Pop3.handleRetr, Fatmama.Pop3.withMessage,
        hint (k + 1) hlt]
      simp [hdeleted, hm, hserver, hx, hlen, Nat.not_le.2 hlt, Fatmama.Pop3.Connection.send]
    rw [List.length_cons, List.range'_succ, List.map_cons, answered, List.foldl_cons, hstep]
    have hdrop : s.snapshot.drop (k + 1) = ms := by
      rw [← List.drop_drop, hms]
      rfl
    refine Eq.trans (@ih { s with out := s.out ++ [ascii "+OK " ++ decimal x.length ++
      ascii " octets" ++ crlf] ++ [retrBody x] } hint hauthed hdeleted hsize hserver (k + 1) hdrop) ?_
    simp [sentLines, flatten_lines]

/-- The replies of one line, before those to RETR. -/
def firstLines (c : Pop3Config) (server : Fatmama.State) (user : Bytes) : List Bytes :=
  let messages := listing server (c.py.lower user)
  [ascii "+OK FATMAMA POP3 ready (" ++ c.hostname ++ ascii ")",
    ascii "+OK mailbox " ++ c.py.lower user,
    ascii "+OK " ++ decimal messages.length ++ ascii " messages",
    ascii "+OK " ++ decimal messages.length ++ ascii " " ++ decimal (messages.map (·.2)).sum].map
      (· ++ crlf)

theorem live_of_unmarked {s : Fatmama.Pop3.Connection} (h : s.deleted = []) :
    s.live.map (·.2) = s.snapshot := by
  simp [Fatmama.Pop3.Connection.live, h, List.map_snd_zip]

/-- The replies to the whole session. -/
theorem session_eq {c : Pop3Config} (hint : ∀ n < 2 ^ 64, c.int (decimal n) = some (n : ℤ))
    (user pass : Bytes) {server : Fatmama.State} {files : List Bytes}
    (hlength : files.length < 2 ^ 64)
    (hfiles : List.Forall₂ (fun m x => Table.get server.files m.1 = some x)
      (listing server (c.py.lower user)) files) :
    session c server user pass = (firstLines c server user ++ sentLines files).flatten := by
  have hlen := hfiles.length_eq
  set messages := listing server (c.py.lower user) with hmessages
  have hsize : ∀ m ∈ messages, m.2 = ((Table.get server.files m.1).getD []).length := by
    intro m hm
    obtain ⟨f, -, rfl⟩ := List.mem_map.1 hm
    rfl
  -- the connection after PASS, and after STAT
  let s : Fatmama.Pop3.Connection := ⟨server, true, [], some (c.py.lower user), messages, [], true,
    (firstLines c server user).take 3, []⟩
  have hpass : answered c (Fatmama.Pop3.connected c server [])
      [(ascii "USER", [user]), (ascii "PASS", [pass])] = s := rfl
  have hlive : s.live.map (·.2) = messages := live_of_unmarked rfl
  have hstat : Fatmama.Pop3.handle c [] s (ascii "STAT") [] =
      { s with out := firstLines c server user } := by
    have hcount : s.live.length = messages.length := by
      rw [← List.length_map (·.2), hlive]
    have hsum : s.live.map (·.2.2) = messages.map (·.2) := by
      rw [← hlive, List.map_map]
      rfl
    have hanswer : Fatmama.Pop3.handle c [] s (ascii "STAT") [] = Fatmama.Pop3.handleStat s := rfl
    rw [hanswer, Fatmama.Pop3.handleStat, hcount, hsum]
    rfl
  have hretr := answered_retr (c := c) (s := { s with out := firstLines c server user })
    (fun n hn => hint n (hn.trans_lt (hlen ▸ hlength))) rfl rfl hsize rfl (k := 0) rfl hfiles
  have hall : answered c (Fatmama.Pop3.connected c server [])
      (fetchCommands user pass messages.length) = answered c (Fatmama.Pop3.handle c []
        (answered c (Fatmama.Pop3.connected c server [])
          [(ascii "USER", [user]), (ascii "PASS", [pass])]) (ascii "STAT") [])
        ((List.range' (0 + 1) messages.length).map fun i => (ascii "RETR", [decimal i])) := rfl
  rw [session, hall, hpass, hstat, hlen, hretr, List.flatten_append]

theorem statCount_answer {n : ℕ} (hn : n < 2 ^ 64) (r : Bytes) :
    statCount (ascii "+OK " ++ decimal n ++ ascii " " ++ r) = n := by
  have hline : ascii "+OK " ++ decimal n ++ ascii " " ++ r =
      ascii "+OK" ++ 32 :: (decimal n ++ 32 :: r) := by
    simp [ascii]
  rw [statCount, hline, words_cons (by decide) (by decide),
    words_cons (decimal_ne_nil n) (decimal_word n)]
  simp [parseUsize_decimal hn]

theorem positive_firstLines {c : Pop3Config} (hhost : OneText c.hostname) (server : Fatmama.State)
    {user : Bytes} (huser : OneText (c.py.lower user)) :
    ∀ l ∈ firstLines c server user, Positive l := by
  simp only [firstLines, List.map_cons, List.map_nil, List.forall_mem_cons, List.not_mem_nil]
  refine ⟨⟨ascii "FATMAMA POP3 ready (" ++ c.hostname ++ ascii ")", ?_, by simp [ascii]⟩,
    ⟨ascii "mailbox " ++ c.py.lower user, ?_, by simp [ascii]⟩,
    ⟨decimal (listing server (c.py.lower user)).length ++ ascii " messages", ?_, by simp⟩,
    ⟨decimal (listing server (c.py.lower user)).length ++ ascii " " ++
      decimal ((listing server (c.py.lower user)).map (·.2)).sum, ?_, by simp⟩, fun l hl => hl.elim⟩
  · exact .append (.append ⟨rfl, by decide⟩ hhost) ⟨rfl, by decide⟩
  · exact .append ⟨rfl, by decide⟩ huser
  · exact .append (oneText_decimal _) ⟨rfl, by decide⟩
  · exact .append (.append (oneText_decimal _) ⟨rfl, by decide⟩) (oneText_decimal _)

/-- The mails in a mailbox of FATMAMA are the messages that `check_new` returns, however they have
come there, as long as no reader but the last takes bytes behind its reply. -/
theorem built_mail_arrives {c : Pop3Config} (hint : ∀ n < 2 ^ 64, c.int (decimal n) = some (n : ℤ))
    (hhost : OneText c.hostname) {user : Bytes} (huser : OneText (c.py.lower user)) (pass : Bytes)
    {server : Fatmama.State} {files mails : List Bytes} (hlength : files.length < 2 ^ 64)
    (hfiles : List.Forall₂ (fun m x => Table.get server.files m.1 = some x)
      (listing server (c.py.lower user)) files) (hmails : List.Forall₂ Arrives mails files)
    {cs : List Bytes} (hcs : Splits (session c server user pass) cs)
    (hkept : Kept (reads (session c server user pass)) cs) :
    checkNew (stream cs) = .ok (mails.mapIdx fun k mail => ⟨1 + k, mail⟩) := by
  have hsent := lines_sentLines hmails
  have hfirst : ∀ ls : List Bytes, (∀ l ∈ ls, Positive l) →
      lines (ls ++ sentLines files).flatten = ls ++ sentLines files := by
    intro ls hls
    induction ls with
    | nil => exact hsent
    | cons l ls ih =>
      obtain ⟨hl, hls⟩ := List.forall_mem_cons.1 hls
      rw [List.cons_append, List.flatten_cons, hl.lines_append, ih hls]
  have hall := positive_firstLines hhost server huser
  rw [checkNew_kept hcs hkept, session_eq hint user pass hlength hfiles, hfirst _ hall]
  have hstat := statCount_answer (n := (listing server (c.py.lower user)).length)
    (hfiles.length_eq ▸ hlength) (decimal ((listing server (c.py.lower user)).map (·.2)).sum ++ crlf)
  rw [← List.append_assoc] at hstat
  simp only [firstLines, List.map_cons, List.map_nil] at hall ⊢
  obtain ⟨hgreeting, hall⟩ := List.forall_mem_cons.1 hall
  have hrest := hfirst _ hall
  obtain ⟨hmailbox, hall⟩ := List.forall_mem_cons.1 hall
  have hrest' := hfirst _ hall
  obtain ⟨hpass, hall⟩ := List.forall_mem_cons.1 hall
  have hrest'' := hfirst _ hall
  simp only [List.cons_append, List.nil_append] at hrest hrest' hrest'' ⊢
  rw [greeting_chunk (hgreeting.lines_append _) hgreeting.goesOn.1 (List.prefix_refl _),
    command_chunk hrest hmailbox.goesOn]
  dsimp only [bind, Except.bind]
  rw [command_chunk hrest' hpass.goesOn]
  dsimp only [bind, Except.bind]
  rw [command_chunk hrest'' (hall _ List.mem_cons_self).goesOn]
  dsimp only [bind, Except.bind]
  rw [hstat, hfiles.length_eq]
  exact fetch_sentLines hmails 1

theorem stores_sample {text data : Bytes}
    (h : cut terminator (text ++ quitLine) = some (data, quitLine)) :
    Stores text (Fatmama.unstuff data) := by
  obtain ⟨t, hrun, -, -, -, r, hr, hx⟩ := sample_transfer text h
  exact ⟨smtpConfig, sampleServer, sampleEnvelope, _, t, asciiStr_readsVerbs, hrun, r, hr, _, hx⟩

/-- A reply with a header in its request id, submitted to a site, passed on to another and fetched
there. -/
theorem built_mail_arrives_reply : ∃ mail x, ∃ server : Fatmama.State,
    sampleReply.run (ascii "b@axiom") (ascii "v@axiom") Antie.Outgoing.sampleStamp [1, 2, 3, 4] =
      .ok mail ∧ Copy mail x ∧ server.files = [([ascii "a", ascii "new", ascii "1"], x)] ∧
    ∃ cs, Splits (session Fatmama.Pop3.pop3Config server (ascii "A@axiom") (ascii "x")) cs ∧
      checkNew (stream cs) = .ok [⟨1, mail⟩] := by
  have hstamp : Antie.Outgoing.sampleStamp.Clean :=
    ⟨⟨by decide, by decide⟩, ⟨by decide, by decide⟩, ⟨by decide, by decide⟩, by decide, by decide⟩
  have hrun : ∃ mail, Valid mail ∧
      sampleReply.run (ascii "b@axiom") (ascii "v@axiom") Antie.Outgoing.sampleStamp [1, 2, 3, 4] =
        .ok mail :=
    ⟨_, by decide +kernel, rfl⟩
  obtain ⟨mail, hvalid, hmail⟩ := hrun
  have hpieces := (written_of_run hstamp (by decide) hmail).pieces
  have hfirst := stores_sample (cut_dotLine (plain_of_lettered hpieces).2 quitLine)
  obtain ⟨r, -, htext⟩ := crossSiteText_eq (Fatmama.unstuff mail)
  have hcopy : Copy mail (Fatmama.unstuff (stuffDots r)) :=
    .passedOn (.submitted hfirst) (stores_sample (cut_crossSiteText htext quitLine))
  let server : Fatmama.State := ⟨[(ascii "a@axiom", [ascii "a"])],
    [([ascii "a", ascii "new", ascii "1"], Fatmama.unstuff (stuffDots r))], []⟩
  have hint : ∀ n < 2 ^ 64, Fatmama.Pop3.pop3Config.int (decimal n) = some (n : ℤ) := by
    intro n hn
    simp [Fatmama.Pop3.pop3Config, parseUsize_decimal hn]
  have harrives : Arrives mail (Fatmama.unstuff (stuffDots r)) :=
    ⟨_, _, _, _, _, hstamp, by decide, hmail, hvalid, hcopy⟩
  have hfiles : List.Forall₂ (fun m x => Table.get server.files m.1 = some x)
      (listing server (Fatmama.Pop3.pop3Config.py.lower (ascii "A@axiom")))
      [Fatmama.unstuff (stuffDots r)] := .cons rfl .nil
  exact ⟨mail, _, server, hmail, hcopy, rfl, _, splits_lines _,
    built_mail_arrives hint ⟨by decide, by decide⟩ ⟨by decide +kernel, by decide +kernel⟩ (ascii "x")
      (by simp) hfiles (.cons harrives .nil) (splits_lines _) (kept_lines _)⟩

end Seam
