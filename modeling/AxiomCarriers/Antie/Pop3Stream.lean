import AxiomCarriers.Antie.Pop3

/-!
# POP3 and the chunks of a stream

`check_new` makes a new `BufReader` for every reply, and what a chunk holds behind the reply is lost
with the reader.  Where no reader but the last takes bytes behind its reply, nothing is lost, and
the chunks do not matter (`checkNew_kept`).  Otherwise they can: a stream whose first line is text
and that has a reply to STAT is read as one that is closed after the greeting if it comes in one
chunk, and as one of an empty mailbox in others (`checkNew_four`).  The streams on which no chunks
matter are those that break off before (`checkNew_chunks`).
-/

namespace Antie.Pop3

open Bytes Utf8 Text

/-- The session of a server that sends without waiting for the client. -/
def stream (cs : List Bytes) : Session := ⟨cs, [], [], [], []⟩

/-- The chunks of the stream; a read that returns nothing is its end. -/
def Splits (b : Bytes) (cs : List Bytes) : Prop := cs.flatten = b ∧ [] ∉ cs

instance (b : Bytes) (cs : List Bytes) : Decidable (Splits b cs) :=
  inferInstanceAs (Decidable (_ ∧ _))

/-- No chunk reaches over the end of a line. -/
def Linewise (cs : List Bytes) : Prop := ∀ c ∈ cs, c ≠ [] ∧ LF ∉ c.dropLast

/-! ## Chunks of whole and cut lines -/

theorem lines_append_left {x r l : Bytes} {ls : List Bytes} (hx : LF ∉ x) (hr : lines r = l :: ls) :
    lines (x ++ r) = (x ++ l) :: ls := by
  induction x with
  | nil => exact hr
  | cons b x ih =>
    rw [List.mem_cons, not_or] at hx
    rw [List.cons_append, lines, if_neg (Ne.symm hx.1), ih hx.2]
    rfl

theorem unread_cons {n : ℕ} (hn : 0 < n) (c : Bytes) (cs : List Bytes) :
    unread n (c :: cs) = unread (n - c.length) cs := by
  obtain ⟨n, rfl⟩ := Nat.exists_eq_succ_of_ne_zero hn.ne'
  rfl

/-- A reader of whole chunks leaves the chunks behind. -/
theorem unread_append {pre : List Bytes} (hpre : ∀ c ∈ pre, c ≠ []) (post : List Bytes) :
    unread pre.flatten.length (pre ++ post) = post := by
  induction pre with
  | nil => exact unread_zero post
  | cons c pre ih =>
    obtain ⟨hc, hpre⟩ := List.forall_mem_cons.1 hpre
    have hpos := List.length_pos_of_ne_nil hc
    rw [List.flatten_cons, List.length_append, List.cons_append, unread_cons (by omega),
      Nat.add_sub_cancel_left, ih hpre]

/-- A reader of whole lines leaves the lines behind. -/
theorem unread_linewise {cs pre post : List Bytes} (hcs : Linewise cs)
    (h : lines cs.flatten = pre ++ post) :
    (unread pre.flatten.length cs).flatten = post.flatten := by
  induction cs generalizing pre with
  | nil =>
    obtain ⟨rfl, rfl⟩ := List.append_eq_nil_iff.1 h.symm
    rfl
  | cons c cs ih =>
    have hcs' : Linewise cs := fun d hd => hcs d (List.mem_cons_of_mem c hd)
    obtain ⟨hc, hlf⟩ := hcs c List.mem_cons_self
    rcases pre with _ | ⟨l, pre⟩
    · rw [List.nil_append] at h
      rw [← h, flatten_lines]
      simp
    · have hl : 0 < l.length := List.length_pos_of_ne_nil
        (ne_nil_of_mem_lines (b := (c :: cs).flatten) (by rw [h]; exact List.mem_cons_self))
      rw [List.flatten_cons] at h
      rw [List.flatten_cons, List.length_append, unread_cons (by omega)]
      obtain ⟨d, e, rfl⟩ := (List.eq_nil_or_concat c).resolve_left hc
      rw [List.concat_eq_append, List.dropLast_concat] at hlf
      rw [List.concat_eq_append] at h ⊢
      by_cases he : e = LF
      · -- the chunk is the rest of a line
        rw [he, List.append_assoc, List.singleton_append, lines_line hlf] at h
        obtain ⟨hl, hpost⟩ := List.cons.inj h
        rw [he, ← hl, Nat.add_sub_cancel_left]
        exact ih hcs' hpost
      · -- the line goes on in the next chunk
        have hlf' : LF ∉ d ++ [e] := by simp [hlf, Ne.symm he]
        rcases hm : lines cs.flatten with _ | ⟨m, ms⟩
        · have hnil : cs.flatten = [] := by rw [← flatten_lines cs.flatten, hm, List.flatten_nil]
          rw [hnil, List.append_nil, lines_last (by simp) hlf'] at h
          obtain ⟨hl, hpost⟩ := List.cons.inj h
          obtain ⟨rfl, rfl⟩ := List.append_eq_nil_iff.1 hpost.symm
          rw [← hl]
          simp [hnil]
        · rw [lines_append_left hlf' hm] at h
          obtain ⟨hl, hpost⟩ := List.cons.inj h
          have hlen : l.length + pre.flatten.length - (d ++ [e]).length =
              (m :: pre).flatten.length := by
            rw [← hl]
            simp only [List.flatten_cons, List.length_append]
            omega
          rw [hlen]
          exact ih hcs' (hm.trans (congrArg (m :: ·) hpost))

/-- A line with its LF and a rest, or a last line. -/
theorem lines_cons_cases {b l : Bytes} {ls : List Bytes} (h : lines b = l :: ls) :
    (b = l ∧ LF ∉ l ∧ ls = []) ∨
      ∃ x r, LF ∉ x ∧ l = x ++ [LF] ∧ b = x ++ LF :: r ∧ lines r = ls := by
  cases b using lines_induction with
  | nil => simp at h
  | last x hx hlf =>
    rw [lines_last hx hlf] at h
    obtain ⟨rfl, rfl⟩ := List.cons.inj h
    exact Or.inl ⟨rfl, hlf, rfl⟩
  | line x r hlf =>
    rw [lines_line hlf] at h
    obtain ⟨rfl, rfl⟩ := List.cons.inj h
    exact Or.inr ⟨x, r, hlf, rfl, rfl, rfl⟩

theorem lines_flatten_tail {b l : Bytes} {ls : List Bytes} (h : lines b = l :: ls) :
    lines ls.flatten = ls := by
  rcases lines_cons_cases h with ⟨-, -, rfl⟩ | ⟨x, r, -, -, -, rfl⟩
  · rfl
  · rw [flatten_lines]

/-! ## What the readers take -/

/-- A reply of one line after which the session goes on. -/
def GoesOn (l : Bytes) : Prop := Valid l ∧ ¬ (ascii "-ERR").isPrefixOf l

instance (l : Bytes) : Decidable (GoesOn l) := inferInstanceAs (Decidable (_ ∧ _))

/-- The lengths of a reply of one line and of what is read after it, `next`; a read that fails takes
no reply. -/
def lineReads (next : Bytes → List Bytes → List ℕ) : List Bytes → List ℕ
  | [] => [0]
  | l :: ls => if GoesOn l then l.length :: next l ls else [0]

/-- The lengths of a message, up to its final dot, and of what is read after it. -/
def textReads (next : List Bytes → List ℕ) (ls : List Bytes) : List ℕ :=
  let text := ls.takeWhile fun l => !isDot l
  match ls.drop text.length with
  | [] => [0]
  | final :: rest =>
    if ∀ l ∈ text ++ [final], Valid l then (text ++ [final]).flatten.length :: next rest else [0]

/-- The lengths of the replies to RETR and of the messages, for as many messages as are left. -/
def messageReads : ℕ → List Bytes → List ℕ
  | 0 => fun _ => []
  | left + 1 => lineReads fun _ => textReads (messageReads left)

/-- The lengths of the replies that `check_new` reads of the stream: the greeting, the replies to
USER, PASS and STAT, and the messages. -/
def reads (b : Bytes) : List ℕ :=
  match lines b with
  | [] => [0]
  | greeting :: ls =>
    if Valid greeting then
      greeting.length :: lineReads (fun _ => lineReads fun _ => lineReads fun stat =>
        messageReads (statCount stat)) ls
    else [0]

/-- No reader but the last takes bytes behind its reply. -/
def Kept : List ℕ → List Bytes → Prop
  | n :: m :: ns, cs => (unread n cs).flatten = cs.flatten.drop n ∧ Kept (m :: ns) (unread n cs)
  | _, _ => True

instance decidableKept : ∀ ns cs, Decidable (Kept ns cs)
  | n :: m :: ns, cs =>
    letI := decidableKept (m :: ns) (unread n cs)
    inferInstanceAs (Decidable (_ ∧ _))
  | [], _ => isTrue trivial
  | [_], _ => isTrue trivial

theorem Kept.head {n : ℕ} {ns : List ℕ} {cs : List Bytes} (hns : ns ≠ []) (h : Kept (n :: ns) cs) :
    (unread n cs).flatten = cs.flatten.drop n ∧ Kept ns (unread n cs) := by
  cases ns with
  | nil => exact absurd rfl hns
  | cons m ns => exact h

theorem lineReads_ne_nil (next : Bytes → List Bytes → List ℕ) (ls : List Bytes) :
    lineReads next ls ≠ [] := by
  cases ls with
  | nil => simp [lineReads]
  | cons l ls =>
    rw [lineReads]
    split_ifs <;> simp

theorem textReads_ne_nil (next : List Bytes → List ℕ) (ls : List Bytes) :
    textReads next ls ≠ [] := by
  unfold textReads
  dsimp only
  split
  · simp
  · split_ifs <;> simp

theorem lines_flatten_append {b : Bytes} {pre post : List Bytes} (h : lines b = pre ++ post) :
    lines post.flatten = post := by
  induction pre generalizing b with
  | nil => rw [List.nil_append] at h; rw [← h, flatten_lines]
  | cons l pre ih => exact ih (lines_flatten_tail h)

/-- What is behind the lines that were read. -/
theorem Kept.rest {cs pre post : List Bytes} {ns : List ℕ} (hns : ns ≠ [])
    (h : Kept (pre.flatten.length :: ns) cs) (hlines : lines cs.flatten = pre ++ post) :
    (unread pre.flatten.length cs).flatten = post.flatten ∧
      lines (unread pre.flatten.length cs).flatten = post ∧ Kept ns (unread pre.flatten.length cs) := by
  obtain ⟨hflat, hkept⟩ := h.head hns
  have hdrop : cs.flatten.drop pre.flatten.length = post.flatten := by
    rw [← flatten_lines cs.flatten, hlines, List.flatten_append, List.drop_left]
  rw [hdrop] at hflat
  exact ⟨hflat, hflat ▸ lines_flatten_append hlines, hkept⟩

theorem command_line {cs ls : List Bytes} {l : Bytes} (h : lines cs.flatten = l :: ls)
    (hl : GoesOn l) : command cs = .ok (l, unread l.length cs) := by
  have hread : readLine (ascii "POP3") cs = .ok l := by simp [readLine, h, hl.1]
  rw [command, hread]
  exact if_neg hl.2

/-- A command fails by what it reads. -/
theorem command_error {cs ds : List Bytes} (h : cs.flatten = ds.flatten)
    (hl : ∀ l ∈ (lines cs.flatten).head?, ¬ GoesOn l) :
    ∃ e, command cs = .error e ∧ command ds = .error e := by
  have hread : readLine (ascii "POP3") ds = readLine (ascii "POP3") cs := by simp only [readLine, h]
  rw [command, command, hread]
  cases hr : readLine (ascii "POP3") cs with
  | error e => exact ⟨e, rfl, rfl⟩
  | ok l =>
    obtain ⟨ls, hls⟩ := readLine_ok hr
    have hv : Valid l := by
      by_contra hv
      simp [readLine, hls, hv] at hr
    have herr : (ascii "-ERR").isPrefixOf l :=
      not_not.1 fun herr => hl l (by simp [hls]) ⟨hv, herr⟩
    exact ⟨_, if_pos herr, if_pos herr⟩

/-- A message that is read to its end. -/
theorem multiline_ok_iff {what : Bytes} {ls : List Bytes} {data : Bytes} {n : ℕ}
    (h : multiline what ls = .ok (data, n)) :
    ∃ final rest, ls.drop (ls.takeWhile fun l => !isDot l).length = final :: rest ∧
      ls = (ls.takeWhile (fun l => !isDot l) ++ [final]) ++ rest ∧
      (∀ l ∈ ls.takeWhile (fun l => !isDot l) ++ [final], Valid l) ∧
      n = (ls.takeWhile (fun l => !isDot l) ++ [final]).flatten.length := by
  induction ls generalizing data n with
  | nil => cases h
  | cons x ls ih =>
    rw [multiline] at h
    split_ifs at h with hv hx
    · obtain ⟨-, rfl⟩ := Prod.mk.inj (Except.ok.inj h)
      exact ⟨x, ls, by simp [hx], by simp [hx], by simpa [hx] using hv, by simp [hx]⟩
    · obtain ⟨⟨r, m⟩, hm, hr⟩ := Except.map_eq_ok_iff.1 h
      obtain ⟨-, rfl⟩ := Prod.mk.inj hr
      obtain ⟨final, rest, hdrop, hls, hvalid, rfl⟩ := ih hm
      have htake : (x :: ls).takeWhile (fun l => !isDot l) = x :: ls.takeWhile fun l => !isDot l :=
        List.takeWhile_cons_of_pos (by simpa using hx)
      rw [htake]
      refine ⟨final, rest, hdrop, congrArg (x :: ·) hls, ?_, by simp⟩
      rw [List.cons_append, List.forall_mem_cons]
      exact ⟨hv, hvalid⟩

/-- Two sequences of chunks of one stream, of which these replies are read and nothing is lost. -/
structure Alike (ns : List ℕ) (cs ds : List Bytes) : Prop where
  flatten : cs.flatten = ds.flatten
  left : Kept ns cs
  right : Kept ns ds

theorem Alike.rest {cs ds pre post : List Bytes} {ns : List ℕ} (hns : ns ≠ [])
    (h : Alike (pre.flatten.length :: ns) cs ds) (hlines : lines cs.flatten = pre ++ post) :
    lines (unread pre.flatten.length cs).flatten = post ∧
      Alike ns (unread pre.flatten.length cs) (unread pre.flatten.length ds) := by
  obtain ⟨hc, hlc, hcs⟩ := h.left.rest hns hlines
  obtain ⟨hd, -, hds⟩ := h.right.rest hns (h.flatten ▸ hlines)
  exact ⟨hlc, hc.trans hd.symm, hcs, hds⟩

/-- What follows a command depends on the stream alone if it does so behind the reply. -/
theorem command_alike {α : Type} {next : Bytes → List Bytes → List ℕ} {cs ds : List Bytes}
    (h : Alike (lineReads next (lines cs.flatten)) cs ds)
    {f : Bytes × List Bytes → Except CarrierError α}
    (hf : ∀ l ls cs ds, (next l ls ≠ [] → lines cs.flatten = ls ∧ Alike (next l ls) cs ds) →
      f (l, cs) = f (l, ds)) : command cs >>= f = command ds >>= f := by
  by_cases hgo : ∀ l ∈ (lines cs.flatten).head?, ¬ GoesOn l
  · obtain ⟨e, hc, hd⟩ := command_error h.flatten hgo
    rw [hc, hd]
  · simp only [not_forall, not_not] at hgo
    obtain ⟨l, hhead, hgo⟩ := hgo
    obtain ⟨ls, hls⟩ := List.head?_eq_some_iff.1 hhead
    rw [command_line hls hgo, command_line (h.flatten ▸ hls) hgo]
    refine hf l ls _ _ fun hns => ?_
    have hlen : [l].flatten.length = l.length := by simp
    rw [hls, lineReads, if_pos hgo, ← hlen] at h
    exact hlen ▸ h.rest hns hls

/-- The loop over the messages depends on the stream alone where nothing is lost. -/
theorem fetch_alike {cs ds : List Bytes} (i left : ℕ)
    (h : left ≠ 0 → Alike (messageReads left (lines cs.flatten)) cs ds) :
    fetch i cs left [] = fetch i ds left [] := by
  induction left generalizing cs ds i with
  | zero => rfl
  | succ left ih =>
    simp only [fetch, List.head?_nil, Option.map_none, Option.getD_none, List.append_nil,
      List.tail_nil]
    refine command_alike (h (Nat.succ_ne_zero left)) fun status ls cs ds hrest => ?_
    obtain ⟨hls, hrest⟩ := hrest (textReads_ne_nil _ ls)
    simp only [readMultiline, ← hrest.flatten, hls]
    cases hm : multiline (ascii "POP3 RETR " ++ (ascii "msg=" ++ decimal i)) ls with
    | error e => rfl
    | ok p =>
      obtain ⟨data, n⟩ := p
      obtain ⟨final, rest, hdrop, hsplit, hvalid, rfl⟩ := multiline_ok_iff hm
      simp only [textReads, hdrop, if_pos hvalid] at hrest
      simp only [Except.map, bind, Except.bind]
      rw [ih (i + 1)]
      intro hleft
      obtain ⟨left, rfl⟩ := Nat.exists_eq_succ_of_ne_zero hleft
      obtain ⟨hlines, hrest⟩ := hrest.rest (lineReads_ne_nil _ rest) (hls.trans hsplit)
      exact hlines.symm ▸ hrest

/-- Where nothing is lost, the chunks do not matter. -/
theorem checkNew_alike {cs ds : List Bytes} (h : Alike (reads cs.flatten) cs ds) :
    checkNew (stream cs) = checkNew (stream ds) := by
  have hread : readLine (ascii "POP3") ds = readLine (ascii "POP3") cs := by
    simp only [readLine, h.flatten]
  simp only [checkNew, stream, List.append_nil, hread]
  cases hr : readLine (ascii "POP3") cs with
  | error e => rfl
  | ok greeting =>
    obtain ⟨ls, hls⟩ := readLine_ok hr
    have hv : Valid greeting := by
      by_contra hv
      simp [readLine, hls, hv] at hr
    have hlen : [greeting].flatten.length = greeting.length := by simp
    have hreads : reads cs.flatten = [greeting].flatten.length ::
        lineReads (fun _ => lineReads fun _ => lineReads fun stat =>
          messageReads (statCount stat)) ls := by
      rw [reads, hls, hlen]
      exact if_pos hv
    rw [hreads] at h
    obtain ⟨hlines, h⟩ := h.rest (lineReads_ne_nil _ ls) hls
    rw [hlen] at hlines h
    rw [← hlines] at h
    refine command_alike h fun _ ls cs ds h => ?_
    obtain ⟨hls, h⟩ := h (lineReads_ne_nil _ ls)
    refine command_alike (hls.symm ▸ h) fun _ ls cs ds h => ?_
    obtain ⟨hls, h⟩ := h (lineReads_ne_nil _ ls)
    refine command_alike (hls.symm ▸ h) fun stat ls cs ds h => ?_
    refine fetch_alike 1 _ fun hcount => ?_
    obtain ⟨left, hleft⟩ := Nat.exists_eq_succ_of_ne_zero hcount
    rw [hleft] at h ⊢
    obtain ⟨hls, h⟩ := h (lineReads_ne_nil _ ls)
    exact hls.symm ▸ h

/-! ## Chunks of one line -/

/-- The replies are of whole lines; how far the last read comes does not matter. -/
inductive OfLines : List ℕ → List Bytes → Prop
  | nil (ls : List Bytes) : OfLines [] ls
  | last (n : ℕ) (ls : List Bytes) : OfLines [n] ls
  | reply {ns : List ℕ} (pre : List Bytes) {post : List Bytes} (h : OfLines ns post) :
      OfLines (pre.flatten.length :: ns) (pre ++ post)

theorem OfLines.line {ns : List ℕ} {l : Bytes} {ls : List Bytes} (h : OfLines ns ls) :
    OfLines (l.length :: ns) (l :: ls) := by
  have := OfLines.reply [l] h
  simpa using this

theorem ofLines_lineReads {next : Bytes → List Bytes → List ℕ} (h : ∀ l ls, OfLines (next l ls) ls)
    (ls : List Bytes) : OfLines (lineReads next ls) ls := by
  cases ls with
  | nil => exact .last 0 []
  | cons l ls =>
    rw [lineReads]
    split_ifs
    · exact (h l ls).line
    · exact .last 0 _

theorem ofLines_messageReads (left : ℕ) (ls : List Bytes) : OfLines (messageReads left ls) ls := by
  induction left generalizing ls with
  | zero => exact .nil ls
  | succ left ih =>
    refine ofLines_lineReads (fun _ ls => ?_) ls
    unfold textReads
    dsimp only
    have hsplit : ls.takeWhile (fun l => !isDot l) ++
        ls.drop (ls.takeWhile fun l => !isDot l).length = ls := by
      conv_rhs => rw [← List.take_append_drop (ls.takeWhile fun l => !isDot l).length ls]
      rw [← List.prefix_iff_eq_take.1 (List.takeWhile_prefix _)]
    generalize ls.takeWhile (fun l => !isDot l) = text at hsplit
    cases hdrop : ls.drop text.length with
    | nil => exact .last 0 ls
    | cons final rest =>
      dsimp only
      split_ifs
      · rw [hdrop, ← List.singleton_append, ← List.append_assoc] at hsplit
        have := OfLines.reply (text ++ [final]) (ih rest)
        rwa [hsplit] at this
      · exact .last 0 ls

theorem ofLines_reads (b : Bytes) : OfLines (reads b) (lines b) := by
  rw [reads]
  cases lines b with
  | nil => exact .last 0 []
  | cons greeting ls =>
    dsimp only
    split_ifs
    · exact (ofLines_lineReads (fun _ => ofLines_lineReads fun _ => ofLines_lineReads fun stat =>
        ofLines_messageReads (statCount stat)) ls).line
    · exact .last 0 _

theorem Linewise.unread {cs : List Bytes} (h : Linewise cs) (n : ℕ) : Linewise (unread n cs) :=
  fun c hc => h c ((unread_suffix n cs).mem hc)

/-- Chunks that reach over no line lose nothing. -/
theorem Linewise.kept {cs : List Bytes} {ns : List ℕ} (h : Linewise cs)
    (hns : OfLines ns (lines cs.flatten)) : Kept ns cs := by
  generalize hls : lines cs.flatten = ls at hns
  induction hns generalizing cs with
  | nil => trivial
  | last => trivial
  | @reply ns pre post hns ih =>
    have hflat := unread_linewise h hls
    cases ns with
    | nil => trivial
    | cons m ns =>
      refine ⟨?_, ih (h.unread _) (hflat ▸ lines_flatten_append hls)⟩
      rw [hflat, ← flatten_lines cs.flatten, hls, List.flatten_append, List.drop_left]

/-! ## Streams that break off -/

/-- The first line is no text; or at most two lines of ASCII text follow it, without an error. -/
def BreaksOff (b : Bytes) : Prop :=
  (∃ l ∈ (lines b).head?, ¬ Valid l) ∨
    (lines b).length ≤ 3 ∧ (∀ c ∈ (lines b).tail.flatten, c < 128) ∧
      ¬ ascii "-ERR" <:+: (lines b).tail.flatten

theorem lines_length_suffix {x y : Bytes} (h : x <:+ y) : (lines x).length ≤ (lines y).length := by
  obtain ⟨t, rfl⟩ := h
  induction t with
  | nil => exact le_rfl
  | cons b t ih =>
    apply ih.trans
    rw [List.cons_append, lines]
    split_ifs
    · simp
    · cases lines (t ++ x) <;> simp

theorem flatten_unread_suffix (n : ℕ) (cs : List Bytes) :
    (unread n cs).flatten <:+ cs.flatten.drop n := by
  induction cs generalizing n with
  | nil => cases n <;> exact List.suffix_refl _
  | cons c cs ih =>
    cases n with
    | zero => exact List.suffix_refl _
    | succ n =>
      apply (ih (n + 1 - c.length)).trans
      rw [List.flatten_cons, List.drop_append]
      exact List.suffix_append _ _

/-- A reader of the first line leaves some of what is behind it. -/
theorem unread_line_suffix {cs ls : List Bytes} {l : Bytes} (h : lines cs.flatten = l :: ls) :
    (unread l.length cs).flatten <:+ ls.flatten := by
  have hdrop : cs.flatten.drop l.length = ls.flatten := by
    rw [← flatten_lines cs.flatten, h, List.flatten_cons, List.drop_left]
  exact hdrop ▸ flatten_unread_suffix l.length cs

/-- The text of a stream that breaks off, behind its first line. -/
structure Trailing (n : ℕ) (b : Bytes) : Prop where
  lines : (lines b).length ≤ n
  ascii : ∀ c ∈ b, c < 128
  err : ¬ Bytes.ascii "-ERR" <:+: b

theorem Trailing.suffix {n : ℕ} {x y : Bytes} (h : Trailing n y) (hx : x <:+ y) : Trailing n x :=
  ⟨(lines_length_suffix hx).trans h.lines, fun c hc => h.ascii c (hx.mem hc),
    fun he => h.err (he.trans hx.isInfix)⟩

/-- A command finds the connection closed, or a line; then one line less is left. -/
theorem command_trailing {n : ℕ} {cs : List Bytes} (h : Trailing n cs.flatten) :
    command cs = .error (.eof (ascii "POP3")) ∨
      ∃ l cs', command cs = .ok (l, cs') ∧ 0 < n ∧ Trailing (n - 1) cs'.flatten := by
  rcases hl : lines cs.flatten with _ | ⟨l, ls⟩
  · exact Or.inl (by simp [command, readLine, hl, bind, Except.bind])
  · have hmem : ∀ c ∈ l, c ∈ cs.flatten := fun c hc => by
      rw [← flatten_lines cs.flatten, hl, List.flatten_cons]
      exact List.mem_append_left _ hc
    have hvalid : Valid l := lossy_eq_self_iff.1 (lossy_of_ascii fun c hc => h.ascii c (hmem c hc))
    have herr : ¬ (ascii "-ERR").isPrefixOf l := fun he => by
      refine h.err (List.IsInfix.trans (List.isPrefixOf_iff_prefix.1 he).isInfix ?_)
      rw [← flatten_lines cs.flatten, hl, List.flatten_cons]
      exact (List.prefix_append l _).isInfix
    have hn := h.lines
    rw [hl, List.length_cons] at hn
    refine Or.inr ⟨l, unread l.length cs, command_line hl ⟨hvalid, herr⟩, by omega, ?_⟩
    · have hsub : ls.flatten <:+ cs.flatten := by
        rw [← flatten_lines cs.flatten, hl, List.flatten_cons]
        exact List.suffix_append l _
      refine Trailing.suffix ⟨?_, fun c hc => h.ascii c (hsub.mem hc),
        fun he => h.err (he.trans hsub.isInfix)⟩ (unread_line_suffix hl)
      rw [lines_flatten_tail hl]
      omega

/-- The client finds the connection closed before the reply to STAT. -/
theorem checkNew_trailing {cs : List Bytes} {l : Bytes} {ls : List Bytes}
    (hl : lines cs.flatten = l :: ls) (hv : Valid l) (h : Trailing 2 ls.flatten) :
    checkNew (stream cs) = .error (.eof (ascii "POP3")) := by
  have hread : readLine (ascii "POP3") cs = .ok l := by simp [readLine, hl, hv]
  have h₁ := h.suffix (unread_line_suffix hl)
  simp only [checkNew, stream, List.append_nil, hread]
  simp only [bind, Except.bind]
  rcases command_trailing h₁ with he | ⟨l₁, cs₁, hc, -, h₂⟩
  · rw [he]
  rw [hc]
  dsimp only
  rcases command_trailing h₂ with he | ⟨l₂, cs₂, hc, -, h₃⟩
  · rw [he]
  rw [hc]
  dsimp only
  rcases command_trailing h₃ with he | ⟨l₃, cs₃, hc, hpos, -⟩
  · rw [he]
  · omega

/-! ## Cuts -/

theorem unread_one (c : Bytes) (cs : List Bytes) : unread 1 ((LF :: c) :: cs) = cs := by
  rw [unread_cons Nat.one_pos]
  simp

theorem command_blank (c : Bytes) (cs : List Bytes) :
    command ((LF :: c) :: cs) = .ok ([LF], cs) := by
  have hlines : lines ((LF :: c) :: cs).flatten = [LF] :: lines (c ++ cs.flatten) := rfl
  rw [command_line hlines ⟨rfl, by decide⟩]
  exact congrArg (fun cs => Except.ok ([LF], cs)) (unread_one c cs)

theorem greeting_chunk {x l : Bytes} {ls cs : List Bytes} (h : lines (x ++ cs.flatten) = l :: ls)
    (hv : Valid l) (hx : l <+: x) : checkNew (stream (x :: cs)) = (do
      let (_, cs) ← command cs
      let (_, cs) ← command cs
      let (stat, cs) ← command cs
      fetch 1 cs (statCount stat) []) := by
  have hread : readLine (ascii "POP3") (x :: cs) = .ok l := by simp [readLine, h, hv]
  have hpos : 0 < l.length :=
    List.length_pos_of_ne_nil (ne_nil_of_mem_lines (b := x ++ cs.flatten) (h ▸ List.mem_cons_self))
  have hunread : unread l.length (x :: cs) = cs := by
    rw [unread_cons hpos, Nat.sub_eq_zero_of_le hx.length_le, unread_zero]
  simp only [checkNew, stream, List.append_nil, hread]
  simp only [bind, Except.bind, hunread]

theorem statCount_byte (c : UInt8) : statCount [c] = 0 := by
  have h : ∀ c : BitVec 8, statCount [UInt8.ofBitVec c] = 0 := by decide +kernel
  exact h c.toBitVec

/-- A reply to STAT of which only the last byte is left is no reply that there are messages. -/
theorem stat_last {e : UInt8} {r : Bytes} (h : e = LF ∨ r = []) : (do
    let (stat, cs) ← command [e :: r]
    fetch 1 cs (statCount stat) []) ≠ .error (.eof (ascii "POP3")) := by
  have hline : ∃ ls, lines (e :: r) = [e] :: ls := by
    rcases h with rfl | rfl
    · exact ⟨lines r, rfl⟩
    · exact ⟨[], by by_cases he : e = LF <;> simp [lines, he]⟩
  obtain ⟨ls, hls⟩ := hline
  have herr : ¬ (ascii "-ERR").isPrefixOf [e] := by simp [ascii]
  by_cases hv : Valid [e]
  · rw [command_line (by simpa using hls) ⟨hv, herr⟩]
    simp [bind, Except.bind, statCount_byte, fetch]
  · have hread : readLine (ascii "POP3") [e :: r] = .error (.notUtf8 (ascii "POP3")) := by
      simp [readLine, hls, hv]
    rw [command, hread]
    simp [bind, Except.bind]

/-- A stream with a reply to STAT can be cut so that the client finds an empty mailbox, or no
text. -/
theorem checkNew_four {b l₁ l₂ l₃ l₄ : Bytes} {ls : List Bytes}
    (h : lines b = l₁ :: l₂ :: l₃ :: l₄ :: ls) (hv : Valid l₁) :
    ∃ cs, Splits b cs ∧ checkNew (stream cs) ≠ .error (.eof (ascii "POP3")) := by
  obtain ⟨x₁, r₁, h₁, rfl, rfl, hr₁⟩ :=
    (lines_cons_cases h).resolve_left fun h => List.cons_ne_nil _ _ h.2.2
  obtain ⟨x₂, r₂, h₂, rfl, rfl, hr₂⟩ :=
    (lines_cons_cases hr₁).resolve_left fun h => List.cons_ne_nil _ _ h.2.2
  obtain ⟨x₃, r₃, h₃, rfl, rfl, hr₃⟩ :=
    (lines_cons_cases hr₂).resolve_left fun h => List.cons_ne_nil _ _ h.2.2
  -- the last byte of the fourth line
  obtain ⟨x₄, e, r₄, rfl, he⟩ : ∃ x e r, r₃ = x ++ e :: r ∧ (e = LF ∨ r = []) := by
    rcases lines_cons_cases hr₃ with ⟨rfl, -, -⟩ | ⟨x, r, -, -, hx, -⟩
    · obtain ⟨x, e, hx⟩ := (List.eq_nil_or_concat r₃).resolve_left fun hnil => by simp [hnil] at hr₃
      exact ⟨x, e, [], by simpa using hx, Or.inr rfl⟩
    · exact ⟨x, LF, r, hx, Or.inl rfl⟩
  refine ⟨[x₁ ++ [LF] ++ x₂, LF :: x₃, LF :: x₄, e :: r₄], ⟨by simp, by simp⟩, ?_⟩
  have hlines : lines (x₁ ++ [LF] ++ x₂ ++ [LF :: x₃, LF :: x₄, e :: r₄].flatten) =
      (x₁ ++ [LF]) :: lines (x₂ ++ LF :: (x₃ ++ LF :: (x₄ ++ e :: r₄))) := by
    have hsplit : x₁ ++ [LF] ++ x₂ ++ [LF :: x₃, LF :: x₄, e :: r₄].flatten =
        x₁ ++ LF :: (x₂ ++ LF :: (x₃ ++ LF :: (x₄ ++ e :: r₄))) := by simp
    rw [hsplit, lines_line h₁]
  rw [greeting_chunk hlines hv (List.prefix_append _ x₂), command_blank]
  simp only [bind, Except.bind]
  rw [command_blank]
  exact stat_last he

theorem exists_last_high {b : Bytes} (h : ∃ c ∈ b, ¬ c < 128) :
    ∃ u c z, b = u ++ c :: z ∧ ¬ c < 128 ∧ ∀ d ∈ z, d < 128 := by
  induction b with
  | nil => simp at h
  | cons a b ih =>
    by_cases hb : ∃ c ∈ b, ¬ c < 128
    · obtain ⟨u, c, z, rfl, hc, hz⟩ := ih hb
      exact ⟨a :: u, c, z, rfl, hc, hz⟩
    · have hall : ∀ d ∈ b, d < 128 := fun d hd => not_not.1 fun hn => hb ⟨d, hd, hn⟩
      obtain ⟨c, hc, hn⟩ := h
      rcases List.mem_cons.1 hc with rfl | hc
      · exact ⟨[], c, b, rfl, hn, hall⟩
      · exact absurd (hall c hc) hn

/-- A byte of no ASCII character with nothing but ASCII behind it is no text. -/
theorem not_valid_high {c : UInt8} {z : Bytes} (hc : ¬ c < 128) (hz : ∀ d ∈ z, d < 128) :
    ¬ Valid (c :: z) := by
  have hlead : feed .start c ≠ some .start := by
    have h : ∀ c : BitVec 8, ¬ UInt8.ofBitVec c < 128 →
        feed .start (UInt8.ofBitVec c) ≠ some .start := by
      decide
    exact h c.toBitVec hc
  unfold Valid
  rw [feeds]
  cases hs : feed .start c with
  | none => simp
  | some s =>
    have hne : s ≠ .start := fun he => hlead (he ▸ hs)
    cases z with
    | nil => simpa [feeds] using hne
    | cons d z => simp [feeds, feed_ascii (hz d List.mem_cons_self) hne]

/-- A stream cut before a line that is no text, or an error. -/
theorem checkNew_cut {l x y m : Bytes} {ls ms : List Bytes} (h : lines (x ++ y) = l :: ls)
    (hv : Valid l) (hx : l <+: x) (hy : lines y = m :: ms)
    (hm : ¬ Valid m ∨ (ascii "-ERR").isPrefixOf m) :
    checkNew (stream [x, y]) ≠ .error (.eof (ascii "POP3")) := by
  have hflat : [y].flatten = y := by simp
  rw [greeting_chunk (by rw [hflat]; exact h) hv hx]
  by_cases hvm : Valid m
  · have hread : readLine (ascii "POP3") [y] = .ok m := by simp [readLine, hy, hvm]
    have herr := hm.resolve_left (not_not.2 hvm)
    simp only [command, hread, bind, Except.bind, if_pos herr]
    simp
  · have hread : readLine (ascii "POP3") [y] = .error (.notUtf8 (ascii "POP3")) := by
      simp [readLine, hy, hvm]
    simp only [command, hread, bind, Except.bind]
    simp

/-- The first line of a text begins as the text does, up to its first LF. -/
theorem first_line {w : Bytes} (hne : w ≠ []) (hw : LF ∉ w) (v : Bytes) :
    ∃ k ms, lines (w ++ v) = (w ++ k) :: ms ∧ k <+: v := by
  rcases hv : lines v with _ | ⟨k, ks⟩
  · have hnil : v = [] := by rw [← flatten_lines v, hv, List.flatten_nil]
    exact ⟨[], [], by simp [hnil, lines_last hne hw], List.nil_prefix⟩
  · refine ⟨k, ks, lines_append_left hw hv, ks.flatten, ?_⟩
    rw [← List.flatten_cons, ← hv, flatten_lines]

/-- A stream that does not break off can be cut so that the client does not find the connection
closed. -/
theorem exists_cut {b l : Bytes} {ls : List Bytes} (h : lines b = l :: ls) (hv : Valid l)
    (hb : ¬ BreaksOff b) :
    ∃ cs, Splits b cs ∧ checkNew (stream cs) ≠ .error (.eof (ascii "POP3")) := by
  have hb' : ¬ ((lines b).length ≤ 3 ∧ (∀ c ∈ ls.flatten, c < 128) ∧
      ¬ ascii "-ERR" <:+: ls.flatten) := fun hn => hb (Or.inr (by rw [h] at hn ⊢; exact hn))
  have hsplit : b = l ++ ls.flatten := by rw [← List.flatten_cons, ← h, flatten_lines]
  have hl : l ≠ [] := ne_nil_of_mem_lines (b := b) (h ▸ List.mem_cons_self)
  have cut : ∀ u y m ms, ls.flatten = u ++ y → lines y = m :: ms →
      (¬ Valid m ∨ (ascii "-ERR").isPrefixOf m) →
      ∃ cs, Splits b cs ∧ checkNew (stream cs) ≠ .error (.eof (ascii "POP3")) := by
    intro u y m ms hu hy hm
    have hb : l ++ u ++ y = b := by rw [hsplit, hu, List.append_assoc]
    have hne : y ≠ [] := fun hnil => by simp [hnil] at hy
    refine ⟨[l ++ u, y], ⟨by simpa using hb, by simp [hl, hne]⟩, ?_⟩
    exact checkNew_cut (hb ▸ h) hv (List.prefix_append l u) hy hm
  by_cases hlen : (lines b).length ≤ 3
  · by_cases hascii : ∀ c ∈ ls.flatten, c < 128
    · obtain ⟨u, v, hu⟩ : ascii "-ERR" <:+: ls.flatten := not_not.1 fun hn => hb' ⟨hlen, hascii, hn⟩
      obtain ⟨k, ms, hm, -⟩ := first_line (w := ascii "-ERR") (by decide) (by decide) v
      refine cut u _ _ ms (by rw [← hu, List.append_assoc]) hm (Or.inr ?_)
      exact List.isPrefixOf_iff_prefix.2 (List.prefix_append _ k)
    · obtain ⟨c, hc⟩ := not_forall.1 hascii
      obtain ⟨u, c, z, hu, hc, hz⟩ := exists_last_high ⟨c, Classical.not_imp.1 hc⟩
      have hlf : LF ∉ [c] := fun hm => hc (List.mem_singleton.1 hm ▸ by decide)
      obtain ⟨k, ms, hm, hk⟩ := first_line (by simp) hlf z
      exact cut u _ _ ms hu hm (Or.inl (not_valid_high hc fun d hd => hz d (hk.mem hd)))
  · rw [h] at hlen
    obtain ⟨l₂, l₃, l₄, ls', rfl⟩ : ∃ l₂ l₃ l₄ ls', ls = l₂ :: l₃ :: l₄ :: ls' := by
      rcases ls with _ | ⟨l₂, _ | ⟨l₃, _ | ⟨l₄, ls'⟩⟩⟩
      · simp at hlen
      · simp at hlen
      · simp at hlen
      · exact ⟨l₂, l₃, l₄, ls', rfl⟩
    exact checkNew_four h hv

theorem linewise_lines (b : Bytes) : Linewise (lines b) := by
  induction b using lines_induction with
  | nil => exact fun c hc => absurd hc List.not_mem_nil
  | last x hx h =>
    intro c hc
    rw [lines_last hx h, List.mem_singleton] at hc
    exact hc ▸ ⟨hx, fun hm => h (List.mem_of_mem_dropLast hm)⟩
  | line x r h ih =>
    intro c hc
    rw [lines_line h] at hc
    rcases List.mem_cons.1 hc with rfl | hc
    · exact ⟨by simp, by rwa [List.dropLast_concat]⟩
    · exact ih c hc

theorem checkNew_notUtf8 {cs : List Bytes} {l : Bytes} {ls : List Bytes}
    (h : lines cs.flatten = l :: ls) (hv : ¬ Valid l) :
    checkNew (stream cs) = .error (.notUtf8 (ascii "POP3")) := by
  have hread : readLine (ascii "POP3") cs = .error (.notUtf8 (ascii "POP3")) := by
    simp [readLine, h, hv]
  simp only [checkNew, stream, hread]
  rfl

theorem splits_lines (b : Bytes) : Splits b (lines b) :=
  ⟨flatten_lines b, fun h => ne_nil_of_mem_lines h rfl⟩

theorem kept_lines (b : Bytes) : Kept (reads b) (lines b) :=
  (linewise_lines b).kept ((flatten_lines b).symm ▸ ofLines_reads b)

/-- Where no reader but the last takes bytes behind its reply, the chunks do not matter. -/
theorem checkNew_kept {b : Bytes} {cs : List Bytes} (hcs : Splits b cs) (h : Kept (reads b) cs) :
    checkNew (stream cs) = checkNew (stream (lines b)) := by
  have hlines := kept_lines b
  refine checkNew_alike ⟨hcs.1.trans (flatten_lines b).symm, ?_, ?_⟩
  · rwa [hcs.1]
  · rwa [hcs.1]

/-- On a stream that breaks off no chunks matter. -/
theorem checkNew_breaksOff {b : Bytes} {cs : List Bytes} (hcs : Splits b cs) (hb : BreaksOff b) :
    checkNew (stream cs) = checkNew (stream (lines b)) := by
  rcases hl : lines b with _ | ⟨l, ls⟩
  · have hnil : b = [] := by rw [← flatten_lines b, hl, List.flatten_nil]
    have hcs' : cs = [] := by
      rcases cs with _ | ⟨c, cs⟩
      · rfl
      · have hc := List.flatten_eq_nil_iff.1 (hcs.1.trans hnil) c List.mem_cons_self
        exact absurd (hc ▸ List.mem_cons_self) hcs.2
    rw [hcs']
  · rw [← hl]
    have hcl : lines cs.flatten = l :: ls := by rw [hcs.1, hl]
    have hsl : lines (lines b).flatten = l :: ls := by rw [flatten_lines, hl]
    by_cases hv : Valid l
    · obtain ⟨hlen, hascii, herr⟩ := hb.resolve_left fun hn => by
        obtain ⟨m, hm, hnv⟩ := hn
        rw [hl] at hm
        exact hnv (Option.some.inj hm ▸ hv)
      rw [hl, List.tail_cons] at hascii herr
      have htrail : Trailing 2 ls.flatten := by
        refine ⟨?_, hascii, herr⟩
        rw [hl, List.length_cons] at hlen
        rw [lines_flatten_tail hl]
        omega
      rw [checkNew_trailing hcl hv htrail, checkNew_trailing hsl hv htrail]
    · rw [checkNew_notUtf8 hcl hv, checkNew_notUtf8 hsl hv]

/-- The chunks of a stream do not matter where no reader but the last takes bytes behind its reply,
and where the stream breaks off.  On every other stream there are chunks that matter. -/
theorem checkNew_chunks (b : Bytes) :
    (∀ cs, Splits b cs → Kept (reads b) cs ∨ BreaksOff b →
      checkNew (stream cs) = checkNew (stream (lines b))) ∧
    ((∀ cs, Splits b cs → checkNew (stream cs) = checkNew (stream (lines b))) ↔ BreaksOff b) := by
  refine ⟨fun cs hcs h => h.elim (checkNew_kept hcs) (checkNew_breaksOff hcs),
    fun h => ?_, fun hb cs hcs => checkNew_breaksOff hcs hb⟩
  by_contra hb
  rcases hl : lines b with _ | ⟨l, ls⟩
  · exact hb (Or.inr (by simp [hl, ascii]))
  · have hv : Valid l := not_not.1 fun hn => hb (Or.inl ⟨l, by simp [hl], hn⟩)
    obtain ⟨cs, hcs, hne⟩ := exists_cut hl hv hb
    -- in one chunk, everything behind the greeting is lost
    have hpre : l <+: b := ⟨ls.flatten, by rw [← List.flatten_cons, ← hl, flatten_lines]⟩
    have hone : checkNew (stream [b]) = .error (.eof (ascii "POP3")) :=
      greeting_chunk (by rw [List.flatten_nil, List.append_nil]; exact hl) hv hpre
    have hchunk : Splits b [b] := by
      refine ⟨by simp, fun hmem => ?_⟩
      rw [← List.mem_singleton.1 hmem] at hl
      simp at hl
    exact hne ((h cs hcs).trans ((h [b] hchunk).symm.trans hone))

/-- A session with one message, from the greeting to the end of the message. -/
def sampleSession : Bytes := ascii "+OK\r\n+OK\r\n+OK\r\n+OK 1 4\r\n+OK\r\nhi\r\n.\r\n"

/-- Nothing is lost where every reply and the message come in a chunk of their own. -/
example : Kept (reads sampleSession) [ascii "+OK\r\n", ascii "+OK\r\n", ascii "+OK\r\n",
    ascii "+OK 1 4\r\n", ascii "+OK\r\n", ascii "hi\r\n.\r\n"] := by decide +kernel

/-- The same session, with the answer to RETR and the message in one chunk. -/
def sampleChunks : List Bytes :=
  [ascii "+OK\r\n", ascii "+OK\r\n", ascii "+OK\r\n", ascii "+OK 1 4\r\n",
    ascii "+OK\r\nhi\r\n.\r\n"]

/-- A message is there when its reply comes in chunks of one line, and lost when the status line and
the message come in one. -/
theorem checkNew_one_message :
    Splits sampleSession sampleChunks ∧ ¬ Kept (reads sampleSession) sampleChunks ∧
    checkNew (stream (lines sampleSession)) = .ok [⟨1, ascii "hi\r\n"⟩] ∧
    checkNew (stream sampleChunks) ≠ checkNew (stream (lines sampleSession)) :=
  ⟨by decide, by decide +kernel, by decide +kernel, by decide +kernel⟩

end Antie.Pop3
