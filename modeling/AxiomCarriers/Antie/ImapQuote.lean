import AxiomCarriers.Antie.Imap
import AxiomCarriers.Lib.Run
import AxiomCarriers.Lib.Separator

/-!
# Quoted arguments

`imap_quote` replaces every backslash and then every quote of an argument, and refuses an argument
with a line break.  Its two replacements are one escape, so that a server reads the argument back
and finds its end where it is, and whatever the credentials and the folder are, `open_session`
writes LOGIN and SELECT with them as their arguments and nothing else (`openSessionSent_read`).

A quoted string has no NUL, and `imap_quote` lets it through: what it writes is a quoted string if
and only if the argument has none (`quotesWell_iff`).
-/

namespace Antie.Imap

open Bytes Utf8 Text Quoted

/-- The characters of a quoted string. -/
def IsTextChar (b : UInt8) : Prop := b ≠ 0 ∧ b ≠ CR ∧ b ≠ LF

/-- A quoted string of RFC 9051 and the text that it stands for. -/
def IsQuotedString (quoted s : Bytes) : Prop :=
  ∃ t, quoted = 34 :: (t ++ [34]) ∧ Valid t ∧ Chars 34 92 IsTextChar t s

/-- The argument becomes a quoted string that stands for it, in which only the first and the last
quote are not escaped; with a line break it is refused. -/
def QuotesWell (s : Bytes) : Prop :=
  (CR ∉ s ∧ LF ∉ s → ∃ quoted, imapQuote s = .ok quoted ∧ IsQuotedString quoted s ∧
    ∀ x y, quoted = x ++ 34 :: y → (¬ Escaped 92 x ↔ x = [] ∨ y = [])) ∧
  (CR ∈ s ∨ LF ∈ s → imapQuote s = .error .badArgument)

/-! ## What is quoted -/

theorem imapQuote_eq (s : Bytes) : imapQuote s =
    if CR ∈ s ∨ LF ∈ s then .error .badArgument else .ok (34 :: (escape 34 92 s ++ [34])) := by
  rw [imapQuote, replace_replace (by decide)]

theorem imapQuote_ok {s quoted : Bytes} (h : imapQuote s = .ok quoted) :
    CR ∉ s ∧ LF ∉ s ∧ quoted = 34 :: (escape 34 92 s ++ [34]) := by
  rw [imapQuote_eq] at h
  split_ifs at h with hbr
  exact ⟨fun hcr => hbr (Or.inl hcr), fun hlf => hbr (Or.inr hlf), (Except.ok.inj h).symm⟩

/-- The escape of any text is read back. -/
theorem chars_escape_any (s : Bytes) : Chars 34 92 (fun _ => True) (escape 34 92 s) s :=
  chars_escape fun _ _ => Or.inr (Or.inr trivial)

theorem feeds_escape (st : State) (s : Bytes) : feeds st (escape 34 92 s) = feeds st s := by
  induction s generalizing st with
  | nil => rfl
  | cons b s ih =>
    simp only [escape, List.flatMap_cons] at ih ⊢
    split_ifs with hb
    · have hlt : b < 128 := by rcases hb with rfl | rfl <;> decide
      by_cases hst : st = .start
      · subst hst
        simp only [List.cons_append, List.nil_append, feeds, feed_start_ascii hlt,
          feed_start_ascii (by decide : (92 : UInt8) < 128), Option.bind_some, ih]
      · simp only [List.cons_append, feeds, feed_ascii hlt hst,
          feed_ascii (by decide : (92 : UInt8) < 128) hst, Option.bind_none]
    · simp only [List.cons_append, List.nil_append, feeds, ih]

theorem quotesWell_iff {s : Bytes} (hs : Valid s) :
    QuotesWell s ↔ (0 ∈ s → CR ∈ s ∨ LF ∈ s) := by
  constructor
  · intro h h0
    by_contra hbr
    obtain ⟨quoted, -, ⟨t, -, -, ht⟩, -⟩ := h.1 (not_or.1 hbr)
    rcases ht.cond_of_mem 0 h0 with he | he | he
    · exact absurd he (by decide)
    · exact absurd he (by decide)
    · exact he.1 rfl
  · intro h
    refine ⟨fun hbr => ?_, fun hbr => by rw [imapQuote_eq, if_pos hbr]⟩
    have hnot := not_or.2 hbr
    have hchars : Chars 34 92 IsTextChar (escape 34 92 s) s := by
      refine chars_escape fun b hb => Or.inr (Or.inr ⟨?_, ?_, ?_⟩)
      · exact fun he => hnot (h (he ▸ hb))
      · exact fun he => hbr.1 (he ▸ hb)
      · exact fun he => hbr.2 (he ▸ hb)
    refine ⟨_, by rw [imapQuote_eq, if_neg hnot], ⟨_, rfl, (feeds_escape _ _).trans hs, hchars⟩, ?_⟩
    exact fun x y hsplit => hchars.not_escaped_iff (by decide) hsplit

/-! ## What a server reads -/

/-- The quoted arguments of a command, each behind a space, up to the end of its line. -/
def readArguments : ℕ → Bytes → Option (List Bytes)
  | 0, _ => none
  | n + 1, l =>
    if l = crlf then some []
    else if [32, 34] <+: l then
      (unquote 34 92 (l.drop 2)).bind fun x => (readArguments n x.2).map (x.1 :: ·)
    else none

/-- A command as a server reads it: its tag, its name and its arguments. -/
def readCommand (line : Bytes) : Option (Bytes × Bytes × List Bytes) :=
  let rest := (line.dropWhile (· ≠ 32)).tail
  (readArguments line.length (rest.dropWhile (· ≠ 32))).map fun arguments =>
    (line.takeWhile (· ≠ 32), rest.takeWhile (· ≠ 32), arguments)

/-- Arguments as they are written, quoted and each behind a space. -/
def writtenArguments (arguments : List Bytes) : Bytes :=
  arguments.flatMap fun s => 32 :: 34 :: (escape 34 92 s ++ [34])

theorem readArguments_written {n : ℕ} {arguments : List Bytes} (hn : arguments.length < n) :
    readArguments n (writtenArguments arguments ++ crlf) = some arguments := by
  induction arguments generalizing n with
  | nil =>
    obtain ⟨n, rfl⟩ := Nat.exists_eq_succ_of_ne_zero (Nat.ne_of_gt hn)
    rfl
  | cons s arguments ih =>
    obtain ⟨n, rfl⟩ := Nat.exists_eq_succ_of_ne_zero (Nat.ne_of_gt (Nat.zero_lt_of_lt hn))
    have hread := unquote_append (by decide) (chars_escape_any s)
      (writtenArguments arguments ++ crlf)
    have hsplit : writtenArguments (s :: arguments) ++ crlf =
        32 :: 34 :: (escape 34 92 s ++ 34 :: (writtenArguments arguments ++ crlf)) := by
      simp [writtenArguments]
    rw [hsplit, readArguments, if_neg (by simp [crlf]), if_pos (by simp), List.drop_succ_cons,
      List.drop_succ_cons, List.drop_zero, hread, Option.bind_some,
      ih (Nat.lt_of_succ_lt_succ hn)]
    rfl

theorem length_le_writtenArguments (arguments : List Bytes) :
    arguments.length ≤ (writtenArguments arguments).length := by
  induction arguments with
  | nil => exact Nat.zero_le _
  | cons s arguments ih =>
    simp only [writtenArguments, List.flatMap_cons, List.cons_append, List.length_cons] at ih ⊢
    rw [List.length_append]
    omega

/-- The line of a command with quoted arguments. -/
def writtenCommand (tag name : Bytes) (arguments : List Bytes) : Bytes :=
  tag ++ 32 :: (name ++ (writtenArguments arguments ++ crlf))

theorem readCommand_written {tag name : Bytes} (htag : 32 ∉ tag) (hname : 32 ∉ name)
    {arguments : List Bytes} (hne : arguments ≠ []) :
    readCommand (writtenCommand tag name arguments) = some (tag, name, arguments) := by
  have hlen : arguments.length < (writtenCommand tag name arguments).length := by
    have := length_le_writtenArguments arguments
    simp only [writtenCommand, List.length_append, List.length_cons]
    omega
  have hread := readArguments_written hlen
  obtain ⟨s, ss, rfl⟩ := List.exists_cons_of_ne_nil hne
  obtain ⟨w, hw⟩ : ∃ w, writtenArguments (s :: ss) ++ crlf = 32 :: w := ⟨_, rfl⟩
  rw [hw] at hread
  simp only [readCommand]
  simp only [writtenCommand, hw] at hread ⊢
  rw [Separator.dropWhile_append htag, Separator.takeWhile_append htag, List.tail_cons,
    Separator.dropWhile_append hname, Separator.takeWhile_append hname, hread]
  rfl

theorem notMem_writtenArguments {c : UInt8} (hc : c ∉ [32, 34, 92]) {arguments : List Bytes}
    (h : ∀ s ∈ arguments, c ∉ s) : c ∉ writtenArguments arguments := by
  simp only [List.mem_cons, List.not_mem_nil, or_false, not_or] at hc
  intro hm
  obtain ⟨s, hs, hm⟩ := List.mem_flatMap.1 hm
  simp only [List.mem_cons, List.mem_append, List.not_mem_nil, or_false, hc.1, hc.2.1,
    false_or] at hm
  exact (chars_escape_any s).notMem hc.2.2 (h s hs) hm

/-! ## What a session writes -/

/-- What `imap_command` writes. -/
def commandLine (tag cmd : Bytes) : Bytes := tag ++ 32 :: (cmd ++ crlf)

def loginCommand (user pass : Bytes) : Bytes := ascii "LOGIN " ++ user ++ 32 :: pass

def selectCommand (folder : Bytes) : Bytes := ascii "SELECT " ++ folder

/-- What `open_session` writes; an argument that is refused ends it before its command is sent. -/
def openSessionSent (c : ImapCarrier) (n : ℕ) (o : Opening) : List Bytes :=
  match readGreeting o.greeting, imapQuote c.username, imapQuote c.password with
  | .ok (), .ok user, .ok pass =>
    commandLine (nextTag n) (loginCommand user pass) ::
      match imapCommand (nextTag n) o.login, imapQuote c.inboxFolder with
      | .ok _, .ok folder => [commandLine (nextTag (n + 1)) (selectCommand folder)]
      | _, _ => []
  | _, _, _ => []

theorem mem_nextTag {n : ℕ} {b : UInt8} (hb : b ∈ nextTag n) : b = 65 ∨ isDigit b := by
  rcases List.mem_cons.1 hb with hb | hb
  · exact Or.inl hb
  · rcases List.mem_append.1 hb with hb | hb
    · rw [List.eq_of_mem_replicate hb]
      exact Or.inr rfl
    · exact Or.inr (isDigit_of_mem_decimal hb)

theorem notMem_nextTag {c : UInt8} (hc : c < 48) (n : ℕ) : c ∉ nextTag n := by
  intro hm
  rcases mem_nextTag hm with rfl | hd
  · exact absurd hc (by decide)
  · rw [isDigit, Bool.and_eq_true, decide_eq_true_eq] at hd
    exact UInt8.not_le.2 hc hd.1

/-- A command is one line if nothing in it has a line break. -/
theorem writtenCommand_line {tag name : Bytes} {arguments : List Bytes}
    (hwords : ∀ b ∈ [CR, LF], b ∉ tag ∧ b ∉ name) (h : ∀ s ∈ arguments, CR ∉ s ∧ LF ∉ s) :
    ∃ x, writtenCommand tag name arguments = x ++ crlf ∧ CR ∉ x ∧ LF ∉ x := by
  have hnot : ∀ b ∈ [CR, LF], (∀ s ∈ arguments, b ∉ s) →
      b ∉ tag ++ 32 :: (name ++ writtenArguments arguments) := by
    intro b hb hs
    have hsp : b ∉ [32, 34, 92] := by
      rcases List.mem_pair.1 hb with rfl | rfl <;> decide
    simp only [List.mem_append, List.mem_cons, not_or]
    exact ⟨(hwords b hb).1, fun he => hsp (he ▸ List.mem_cons_self), (hwords b hb).2,
      notMem_writtenArguments hsp hs⟩
  exact ⟨tag ++ 32 :: (name ++ writtenArguments arguments), by simp [writtenCommand],
    hnot CR (by decide) fun s hs => (h s hs).1, hnot LF (by decide) fun s hs => (h s hs).2⟩

theorem login_written {username password user pass : Bytes} (hu : imapQuote username = .ok user)
    (hp : imapQuote password = .ok pass) (tag : Bytes) :
    commandLine tag (loginCommand user pass) =
      writtenCommand tag (ascii "LOGIN") [username, password] := by
  have hname : ascii "LOGIN " = ascii "LOGIN" ++ [32] := by decide
  rw [commandLine, loginCommand, (imapQuote_ok hu).2.2, (imapQuote_ok hp).2.2, hname]
  simp [writtenCommand, writtenArguments]

theorem select_written {folder quoted : Bytes} (h : imapQuote folder = .ok quoted) (tag : Bytes) :
    commandLine tag (selectCommand quoted) = writtenCommand tag (ascii "SELECT") [folder] := by
  have hname : ascii "SELECT " = ascii "SELECT" ++ [32] := by decide
  rw [commandLine, selectCommand, (imapQuote_ok h).2.2, hname]
  simp [writtenCommand, writtenArguments]

/-- The commands of a session, each with the arguments that it is meant to have. -/
def sessionCommands (c : ImapCarrier) (n : ℕ) : List (Bytes × Bytes × List Bytes) :=
  [(nextTag n, ascii "LOGIN", [c.username, c.password]),
    (nextTag (n + 1), ascii "SELECT", [c.inboxFolder])]

theorem sessionCommands_words (c : ImapCarrier) (n : ℕ) : ∀ x ∈ sessionCommands c n,
    x.2.2 ≠ [] ∧ ∀ b ∈ [CR, LF, 32], b ∉ x.1 ∧ b ∉ x.2.1 := by
  have htag : ∀ n, ∀ b ∈ [CR, LF, 32], b ∉ nextTag n := by
    have hlt : ∀ b ∈ [CR, LF, 32], b < 48 := by decide
    exact fun n b hb => notMem_nextTag (hlt b hb) n
  have hlogin : ∀ b ∈ [CR, LF, 32], b ∉ ascii "LOGIN" := by decide
  have hselect : ∀ b ∈ [CR, LF, 32], b ∉ ascii "SELECT" := by decide
  intro x hx
  simp only [sessionCommands, List.mem_cons, List.not_mem_nil, or_false] at hx
  rcases hx with rfl | rfl
  · exact ⟨List.cons_ne_nil _ _, fun b hb => ⟨htag n b hb, hlogin b hb⟩⟩
  · exact ⟨List.cons_ne_nil _ _, fun b hb => ⟨htag (n + 1) b hb, hselect b hb⟩⟩

theorem openSessionSent_cases (c : ImapCarrier) (n : ℕ) (o : Opening) :
    ∃ k, openSessionSent c n o =
        ((sessionCommands c n).take k).map (fun x => writtenCommand x.1 x.2.1 x.2.2) ∧
      ∀ x ∈ (sessionCommands c n).take k, ∀ s ∈ x.2.2, CR ∉ s ∧ LF ∉ s := by
  unfold openSessionSent
  split
  next user pass hg hu hp =>
    have huser := imapQuote_ok hu
    have hpass := imapQuote_ok hp
    split
    next ls folder hl hf =>
      have hfolder := imapQuote_ok hf
      refine ⟨2, by rw [login_written hu hp, select_written hf]; rfl, ?_⟩
      simp [sessionCommands, huser.1, huser.2.1, hpass.1, hpass.2.1, hfolder.1, hfolder.2.1]
    next =>
      refine ⟨1, by rw [login_written hu hp]; rfl, ?_⟩
      simp [sessionCommands, huser.1, huser.2.1, hpass.1, hpass.2.1]
  next => exact ⟨0, rfl, by simp⟩

/-- A session that opens has written both of its commands. -/
theorem length_openSessionSent {c : ImapCarrier} {n : ℕ} {o : Opening}
    (h : openSession c n o = .ok ()) : (openSessionSent c n o).length = 2 := by
  obtain ⟨_, hgreeting, h⟩ := Except.bind_eq_ok_iff.1 h
  obtain ⟨user, huser, h⟩ := Except.bind_eq_ok_iff.1 h
  obtain ⟨pass, hpass, h⟩ := Except.bind_eq_ok_iff.1 h
  obtain ⟨_, hlogin, h⟩ := Except.bind_eq_ok_iff.1 h
  obtain ⟨folder, hfolder, -⟩ := Except.bind_eq_ok_iff.1 h
  rw [openSessionSent, hgreeting, huser, hpass, hlogin, hfolder]
  rfl

/-- Whatever the user name, the password and the folder are, every write of a session is one line,
and a server reads these lines as LOGIN and SELECT with exactly these arguments. -/
theorem openSessionSent_read (c : ImapCarrier) (n : ℕ) (o : Opening) :
    (∀ line ∈ openSessionSent c n o, ∃ x, line = x ++ crlf ∧ CR ∉ x ∧ LF ∉ x) ∧
    (openSessionSent c n o).map readCommand <+: (sessionCommands c n).map some := by
  obtain ⟨k, hsent, hbr⟩ := openSessionSent_cases c n o
  have hwords : ∀ x ∈ (sessionCommands c n).take k,
      x.2.2 ≠ [] ∧ ∀ b ∈ [CR, LF, 32], b ∉ x.1 ∧ b ∉ x.2.1 :=
    fun x hx => sessionCommands_words c n x (List.mem_of_mem_take hx)
  rw [hsent]
  constructor
  · intro line hline
    obtain ⟨x, hx, rfl⟩ := List.mem_map.1 hline
    refine writtenCommand_line (fun b hb => (hwords x hx).2 b ?_) (hbr x hx)
    exact (List.prefix_append [CR, LF] [32]).subset hb
  · have hread : ((sessionCommands c n).take k).map
        (readCommand ∘ fun x => writtenCommand x.1 x.2.1 x.2.2) =
          ((sessionCommands c n).take k).map some := by
      apply List.map_congr_left
      intro x hx
      have hspace := (hwords x hx).2 32 (by decide)
      exact readCommand_written hspace.1 hspace.2 (hwords x hx).1
    rw [List.map_map, hread, List.map_take]
    exact List.take_prefix _ _

/-! ## What the quoting comes to -/

theorem imapQuote_read {s quoted : Bytes} (h : imapQuote s = .ok quoted) :
    ∃ t, quoted = 34 :: (t ++ [34]) ∧ ∀ r, unquote 34 92 (t ++ 34 :: r) = some (s, r) :=
  ⟨_, (imapQuote_ok h).2.2, unquote_append (by decide) (chars_escape_any s)⟩

theorem imapQuote_injective {s s' quoted : Bytes} (h : imapQuote s = .ok quoted)
    (h' : imapQuote s' = .ok quoted) : s = s' := by
  obtain ⟨t, rfl, hread⟩ := imapQuote_read h
  obtain ⟨t', ht, hread'⟩ := imapQuote_read h'
  obtain rfl := List.append_cancel_right (List.cons.inj ht).2
  exact congrArg Prod.fst (Option.some.inj ((hread []).symm.trans (hread' [])))

/-- An argument is quoted as it should be if and only if it has no NUL or is refused for a line
break.  With a NUL or not, a quoted argument is read back up to its end, whatever follows, no two
arguments are quoted alike, and a session writes its two commands with its own arguments. -/
theorem imapQuote_quotes {s : Bytes} (hs : Valid s) :
    (QuotesWell s ↔ (0 ∈ s → CR ∈ s ∨ LF ∈ s)) ∧
    (∀ quoted, imapQuote s = .ok quoted →
      (∃ t, quoted = 34 :: (t ++ [34]) ∧ ∀ r, unquote 34 92 (t ++ 34 :: r) = some (s, r)) ∧
      ∀ s', imapQuote s' = .ok quoted → s = s') ∧
    ∀ c n o, (∀ line ∈ openSessionSent c n o, ∃ x, line = x ++ crlf ∧ CR ∉ x ∧ LF ∉ x) ∧
      (openSessionSent c n o).map readCommand <+: (sessionCommands c n).map some ∧
      (openSession c n o = .ok () →
        (openSessionSent c n o).map readCommand = (sessionCommands c n).map some) := by
  refine ⟨quotesWell_iff hs, fun quoted h => ?_, fun c n o => ?_⟩
  · exact ⟨imapQuote_read h, fun s' h' => imapQuote_injective h h'⟩
  · obtain ⟨hline, hread⟩ := openSessionSent_read c n o
    refine ⟨hline, hread, fun hopen => hread.eq_of_length ?_⟩
    rw [List.length_map, length_openSessionSent hopen]
    rfl

/-- NUL is let through, and what is written then is no quoted string of anything. -/
theorem imapQuote_nul : Valid [0] ∧ CR ∉ [0] ∧ LF ∉ [0] ∧ imapQuote [0] = .ok [34, 0, 34] ∧
    (¬ ∃ s, IsQuotedString [34, 0, 34] s) ∧ ¬ QuotesWell [0] := by
  refine ⟨by decide, by decide, by decide, rfl, ?_, fun h => ?_⟩
  · rintro ⟨s, t, ht, -, hchars⟩
    obtain rfl : [0] = t := List.append_cancel_right (List.cons.inj ht).2
    cases hchars with
    | plain _ _ ha _ => exact ha.1 rfl
  · have hbr := (quotesWell_iff (by decide)).1 h (by decide)
    exact absurd hbr (by decide)

/-- A user with spaces, a quote and backslashes in the password, one of them at its end. -/
def quotedCarrier : ImapCarrier :=
  ⟨ascii "user@example.org", ascii "pa ss\"wo\\rd\\", ascii "INBOX"⟩

def quotedOpening : Opening :=
  ⟨ascii "* OK ready\r\n", ascii "A0001 OK login\r\n", ascii "A0002 OK select\r\n"⟩

theorem imapQuote_quotes_password : QuotesWell quotedCarrier.password ∧
    imapQuote quotedCarrier.password = .ok (ascii "\"pa ss\\\"wo\\\\rd\\\\\"") ∧
    openSession quotedCarrier 1 quotedOpening = .ok () ∧
    (openSessionSent quotedCarrier 1 quotedOpening).map readCommand =
      [some (ascii "A0001", ascii "LOGIN", [quotedCarrier.username, quotedCarrier.password]),
        some (ascii "A0002", ascii "SELECT", [ascii "INBOX"])] := by
  have hopen : openSession quotedCarrier 1 quotedOpening = .ok () := by decide +kernel
  have htags : nextTag 1 = ascii "A0001" ∧ nextTag 2 = ascii "A0002" := by decide +kernel
  have hvalid : Valid quotedCarrier.password := by decide +kernel
  have hnul : 0 ∉ quotedCarrier.password := by decide +kernel
  obtain ⟨hquotes, -, hsession⟩ := imapQuote_quotes hvalid
  refine ⟨hquotes.2 fun h => absurd h hnul, by decide +kernel, hopen, ?_⟩
  rw [(hsession quotedCarrier 1 quotedOpening).2.2 hopen, sessionCommands, htags.1, htags.2]
  rfl

end Antie.Imap
