import AxiomCarriers.Lib.Headers

/-!
# The session stamp of TOT

`session_leg` mints a session id (`SessionId.mint`) and stamps it on every mail of the session
(`stampSession`, `tot/src/main.rs`): the mail is decoded lossily, the stamp line is put on top, and
the header lines with which a client set the header itself are dropped by a loop over the physical
lines (`dropOwn`).

`stampSession_eq` gives the output in closed form: the stamp line, then the lossy conversion of the
mail without those lines (`withoutOwn`).  What the stamp is worth to the reader of the mail
(`stampValues`) and what the stamping changes are both read off this form.
-/

namespace Tot

open Bytes Utf8 Headers

/-! ## Session ids -/

/-- One digit of `{:02x}`. -/
def hexDigit (n : UInt8) : UInt8 := if n < 10 then 48 + n else 87 + n

def isHex (b : UInt8) : Bool := (48 ≤ b && b ≤ 57) || (97 ≤ b && b ≤ 102)

/-- A session id: 64 lower-case hexadecimal digits. -/
structure SessionId where
  hex : Bytes
  length_hex : hex.length = 64
  isHex_hex : ∀ b ∈ hex, isHex b
  deriving DecidableEq

theorem isHex_hexDigit (n : UInt8) (h : n < 16) : isHex (hexDigit n) := by
  have all : ∀ m : BitVec 8, UInt8.ofBitVec m < 16 → isHex (hexDigit (UInt8.ofBitVec m)) := by
    decide
  exact all n.toBitVec h

/-- The two digits of a byte. -/
theorem isHex_digits {b x : UInt8} (h : b ∈ [hexDigit (x / 16), hexDigit (x % 16)]) : isHex b := by
  have hq : x / 16 < 16 := by
    rw [UInt8.lt_iff_toNat_lt, UInt8.toNat_div]
    have := x.toNat_lt
    simp only [UInt8.reduceToNat]
    omega
  have hr : x % 16 < 16 := UInt8.mod_lt x (by decide)
  simp only [List.mem_cons, List.not_mem_nil, or_false] at h
  rcases h with rfl | rfl
  · exact isHex_hexDigit _ hq
  · exact isHex_hexDigit _ hr

/-- The session id made of 32 random bytes. -/
def SessionId.mint (b : Bytes) (hb : b.length = 32) : SessionId where
  hex := b.flatMap fun x => [hexDigit (x / 16), hexDigit (x % 16)]
  length_hex := by simp [List.length_flatMap, hb]
  isHex_hex := by
    intro d hd
    obtain ⟨x, -, hd⟩ := List.mem_flatMap.1 hd
    exact isHex_digits hd

theorem isHex_bounds {b : UInt8} (h : isHex b) : 48 ≤ b ∧ b ≤ 102 := by
  simp only [isHex, Bool.or_eq_true, Bool.and_eq_true, decide_eq_true_eq] at h
  rcases h with ⟨h₁, h₂⟩ | ⟨h₁, h₂⟩
  · exact ⟨h₁, UInt8.le_trans h₂ (by decide)⟩
  · exact ⟨UInt8.le_trans (by decide) h₁, h₂⟩

theorem not_isWs_of_isHex {b : UInt8} (h : isHex b) : ¬ isWs b := by
  have hb := (isHex_bounds h).1
  simp only [isWs, Bool.or_eq_true, decide_eq_true_eq, Bool.and_eq_true, not_or, not_and]
  refine ⟨?_, fun _ hle => ?_⟩
  · rintro rfl
    exact absurd hb (by decide)
  · exact absurd (UInt8.le_trans hb hle) (by decide)

theorem SessionId.lf_notMem (id : SessionId) : LF ∉ id.hex := fun h =>
  absurd (isHex_bounds (id.isHex_hex _ h)).1 (by decide)

theorem SessionId.ne_nil (id : SessionId) : id.hex ≠ [] := by
  intro h
  have := id.length_hex
  simp [h] at this

/-! ## `stamp_session` -/

/-- `trim_end_matches(['\r', '\n'])`. -/
def trimEol (l : Bytes) : Bytes := l.rdropWhile fun b => b = CR || b = LF

/-- The header line begins, in any case, with `x-tot-session:`. -/
def isOwn (l : Bytes) : Bool := (ascii "x-tot-session:").isPrefixOf ((trimEol l).map lower)

/-- The loop of `stamp_session` over the lines; the flag is `in_headers`. -/
def dropOwn : Bool → List Bytes → List Bytes
  | _, [] => []
  | false, l :: ls => l :: dropOwn false ls
  | true, l :: ls =>
    if trimEol l = [] then l :: dropOwn false ls
    else if isOwn l then dropOwn true ls
    else l :: dropOwn true ls

def stampLine (id : SessionId) : Bytes := ascii "X-TOT-Session: " ++ id.hex ++ crlf

def stampSession (raw : Bytes) (id : SessionId) : Except String Bytes :=
  if ¬ crlf ++ crlf <:+: raw ∧ ¬ [LF, LF] <:+: raw then
    .error "session message has no header block — refusing to stamp"
  else
    .ok (stampLine id ++ (dropOwn true (lines (lossy raw))).flatten)

/-- The mail without the client's own X-TOT-Session header lines; the header ends at the first line
that is empty but for its terminator. -/
def withoutOwn (raw : Bytes) : Bytes :=
  (((lines raw).takeWhile fun l => trimEol l ≠ []).filter (¬ isOwn ·) ++
    (lines raw).dropWhile fun l => trimEol l ≠ []).flatten

theorem dropOwn_false (ls : List Bytes) : dropOwn false ls = ls := by
  induction ls with
  | nil => rfl
  | cons l ls ih => rw [dropOwn, ih]

theorem dropOwn_true (ls : List Bytes) :
    dropOwn true ls = (ls.takeWhile fun l => trimEol l ≠ []).filter (¬ isOwn ·) ++
      ls.dropWhile fun l => trimEol l ≠ [] := by
  induction ls with
  | nil => rfl
  | cons l ls ih =>
    rw [dropOwn, dropOwn_false, ih]
    by_cases h : trimEol l = []
    · simp [h]
    · by_cases ho : isOwn l <;> simp [h, ho]

/-! ## Through the lossy conversion -/

theorem trimEol_lossy (l : Bytes) : trimEol (lossy l) = lossy (trimEol l) := by
  unfold trimEol
  induction l using List.reverseRecOn with
  | nil => rfl
  | append_singleton x b ih =>
    by_cases hb : b = CR ∨ b = LF
    · have hb' : b < 128 := by rcases hb with rfl | rfl <;> decide
      rw [lossy_append_ascii x hb', lossy_nil, List.rdropWhile_concat_pos _ _ _ (by simpa using hb),
        List.rdropWhile_concat_pos _ _ _ (by simpa using hb), ih]
    · rw [List.rdropWhile_concat_neg _ _ _ (by simpa using hb), List.rdropWhile_eq_self_iff]
      intro hne
      have hlast : ∀ c, c < 128 → c ≠ b → (lossy (x ++ [b])).getLast hne ≠ c := by
        intro c hc hcb e
        have h := (getLast?_lossy hc).1 (e ▸ List.getLast?_eq_getLast_of_ne_nil hne)
        simp only [List.getLast?_append, List.getLast?_singleton, Option.some_or,
          Option.some.injEq] at h
        exact hcb h.symm
      simp only [not_or] at hb
      simpa using ⟨hlast CR (by decide) (Ne.symm hb.1), hlast LF (by decide) (Ne.symm hb.2)⟩

theorem head_of_isPrefix {c : UInt8} {w y : Bytes} (hc : c < 128) (h : c :: w <+: y.map lower) :
    ∃ d, d < 128 ∧ y.head? = some d := by
  cases y with
  | nil => simp at h
  | cons d y =>
    obtain ⟨rfl, -⟩ := List.cons_prefix_cons.1 h
    exact ⟨d, lower_lt.1 hc, rfl⟩

theorem isPrefix_map_lower_lossy {w : Bytes} (hw : ∀ b ∈ w, b < 128) (x : Bytes) :
    w <+: (lossy x).map lower ↔ w <+: x.map lower := by
  induction w generalizing x with
  | nil => simp
  | cons c w ih =>
    have hc : c < 128 := hw c List.mem_cons_self
    cases x with
    | nil => rfl
    | cons b x =>
      by_cases hb : b < 128
      · rw [lossy_cons_ascii hb, List.map_cons, List.map_cons, List.cons_prefix_cons,
          List.cons_prefix_cons, ih fun d hd => hw d (List.mem_cons_of_mem _ hd)]
      · have hhead : ∀ d, d < 128 → (b :: x).head? ≠ some d := by
          rintro d hd ⟨⟩
          exact hb hd
        constructor <;> intro h
        · obtain ⟨d, hd, h⟩ := head_of_isPrefix hc h
          exact absurd ((head?_lossy hd).1 h) (hhead d hd)
        · obtain ⟨d, hd, h⟩ := head_of_isPrefix hc h
          exact absurd h (hhead d hd)

theorem isOwn_lossy (l : Bytes) : isOwn (lossy l) = isOwn l := by
  rw [Bool.eq_iff_iff]
  simp only [isOwn, List.isPrefixOf_iff_prefix, trimEol_lossy]
  exact isPrefix_map_lower_lossy (by simp [ascii]) _

theorem dropOwn_map_lossy (f : Bool) (ls : List Bytes) :
    dropOwn f (ls.map lossy) = (dropOwn f ls).map lossy := by
  induction ls generalizing f with
  | nil => cases f <;> rfl
  | cons l ls ih =>
    cases f with
    | false => rw [dropOwn_false, dropOwn_false]
    | true =>
      simp only [List.map_cons, dropOwn, trimEol_lossy, lossy_eq_nil_iff, isOwn_lossy, ih]
      split_ifs <;> rfl

/-- The loop drops the first line or passes it on. -/
theorem dropOwn_cons (f : Bool) (l : Bytes) (ls : List Bytes) :
    ∃ g, dropOwn f (l :: ls) = dropOwn g ls ∨ dropOwn f (l :: ls) = l :: dropOwn g ls := by
  cases f with
  | false => exact ⟨false, Or.inr rfl⟩
  | true =>
    rw [dropOwn]
    split_ifs
    exacts [⟨false, Or.inr rfl⟩, ⟨true, Or.inl rfl⟩, ⟨true, Or.inr rfl⟩]

theorem flatten_dropOwn_lossy (f : Bool) (b : Bytes) :
    ((dropOwn f (lines b)).map lossy).flatten = lossy (dropOwn f (lines b)).flatten := by
  induction b using lines_induction generalizing f with
  | nil => cases f <;> rfl
  | last x hx h =>
    obtain ⟨g, hg | hg⟩ := dropOwn_cons f x [] <;> rw [lines_last hx h, hg] <;> cases g <;>
      simp [dropOwn]
  | line x r h ih =>
    obtain ⟨g, hg | hg⟩ := dropOwn_cons f (x ++ [LF]) (lines r) <;> rw [lines_line h, hg]
    · exact ih g
    · rw [List.map_cons, List.flatten_cons, List.flatten_cons, ih, List.append_assoc,
        List.singleton_append, lossy_append_ascii x (by decide), lossy_append_ascii x (by decide)]
      simp

/-- The output of `stampSession`: the stamp line, then the converted mail without the client's own
header lines. -/
theorem stampSession_eq {raw out : Bytes} {id : SessionId} (h : stampSession raw id = .ok out) :
    out = stampLine id ++ lossy (withoutOwn raw) := by
  unfold stampSession at h
  split_ifs at h
  rw [← Except.ok.inj h, lines_lossy, dropOwn_map_lossy, flatten_dropOwn_lossy, withoutOwn,
    dropOwn_true]

/-! ## What the stamping changes -/

/-- Stamping removes the client's own header lines and changes nothing else exactly when what is
left of the mail is valid UTF-8. -/
theorem stampSession_preserves_iff {raw out : Bytes} {id : SessionId}
    (h : stampSession raw id = .ok out) :
    out = stampLine id ++ withoutOwn raw ↔ Valid (withoutOwn raw) := by
  rw [stampSession_eq h, List.append_cancel_left_eq, lossy_eq_self_iff]

/-- The id of the runs below. -/
def zeroId : SessionId := .mint (List.replicate 32 0) rfl

theorem stampSession_preserves_iff_plain :
    stampLine zeroId ++ ascii "From: a@b\r\n\r\nhi" =
        stampLine zeroId ++ withoutOwn (ascii "From: a@b\r\n\r\nhi") ↔
      Valid (withoutOwn (ascii "From: a@b\r\n\r\nhi")) := by
  have h : stampSession (ascii "From: a@b\r\n\r\nhi") zeroId =
      .ok (stampLine zeroId ++ ascii "From: a@b\r\n\r\nhi") := by decide +kernel
  exact stampSession_preserves_iff h

/-- A body of one byte that is not UTF-8 leaves as the three bytes of U+FFFD. -/
theorem stampSession_replaces_body_byte :
    stampSession (ascii "From: a@b\r\n\r\n" ++ [0xFF]) zeroId =
        .ok (stampLine zeroId ++ ascii "From: a@b\r\n\r\n" ++ replacement) ∧
      withoutOwn (ascii "From: a@b\r\n\r\n" ++ [0xFF]) =
        ascii "From: a@b\r\n\r\n" ++ [0xFF] ∧
      stampSession (ascii "From: a@b\r\n\r\n" ++ [0xFF]) zeroId ≠
        .ok (stampLine zeroId ++ withoutOwn (ascii "From: a@b\r\n\r\n" ++ [0xFF])) := by
  decide +kernel

/-! ## What the stamp is worth to a reader -/

def stampName : Bytes := ascii "x-tot-session"

/-- The values of the fields named X-TOT-Session in the header block of a mail. -/
def stampValues (mail : Bytes) : List Bytes :=
  ((fold (block mail)).2.filter (name · = some stampName)).map value

def stampText (id : SessionId) : Bytes := ascii "X-TOT-Session: " ++ id.hex

theorem stampLine_append (id : SessionId) (y : Bytes) :
    stampLine id ++ y = (stampText id ++ [CR]) ++ LF :: y := by
  simp [stampLine, stampText, crlf]

theorem lf_notMem_stampText (id : SessionId) : LF ∉ stampText id ++ [CR] := by
  simp only [stampText, List.mem_append, not_or]
  exact ⟨⟨by simp [ascii, LF], id.lf_notMem⟩, by decide⟩

theorem chomp_stampLine (id : SessionId) : chomp (stampText id ++ [CR] ++ [LF]) = stampText id := by
  simp [chomp, stripCR]

theorem block_stampLine (id : SessionId) (y : Bytes) :
    block (stampLine id ++ y) = stampText id :: block y := by
  have hne : stampText id ≠ [] := by simp [stampText, id.ne_nil]
  rw [stampLine_append, block, lines_line (lf_notMem_stampText id), List.map_cons,
    chomp_stampLine, List.takeWhile_cons_of_pos (by simpa using hne)]
  rfl

theorem stampText_eq (id : SessionId) (c : Bytes) :
    stampText id ++ c = ascii "X-TOT-Session" ++ 58 :: 32 :: (id.hex ++ c) := by
  have h : ascii "X-TOT-Session: " = ascii "X-TOT-Session" ++ [58, 32] := by simp [ascii]
  simp [stampText, h]

theorem name_stampText (id : SessionId) (c : Bytes) : name (stampText id ++ c) = some stampName := by
  rw [stampText_eq, name, if_pos (by simp), takeWhile_colon (by simp [ascii])]
  simp only [ascii, stampName]
  rfl

/-- The continuation lines under the stamp leave its value alone exactly when they are blank. -/
theorem value_stampText_iff (id : SessionId) (c : Bytes) :
    value (stampText id ++ c) = id.hex ↔ ∀ b ∈ c, isWs b := by
  have hdrop : (id.hex ++ c).dropWhile isWs = id.hex ++ c := by
    obtain ⟨d, t, ht⟩ := List.exists_cons_of_ne_nil id.ne_nil
    have hd : ¬ isWs d := not_isWs_of_isHex (id.isHex_hex d (ht ▸ List.mem_cons_self))
    rw [ht, List.cons_append, List.dropWhile_cons_of_neg hd]
  rw [stampText_eq, value, dropWhile_colon (by simp [ascii]), List.tail_cons,
    List.dropWhile_cons_of_pos (by decide), hdrop]
  exact rdropWhile_append_eq_left_iff fun hne =>
    not_isWs_of_isHex (id.isHex_hex _ (List.getLast_mem hne))

theorem not_isCont_stampText (id : SessionId) : ¬ isCont (stampText id) := by
  have h : ascii "X-TOT-Session: " = 88 :: ascii "-TOT-Session: " := by simp [ascii]
  simp [stampText, isCont, h]

theorem forall_isWs_lossy (x : Bytes) : (∀ b ∈ lossy x, isWs b) ↔ ∀ b ∈ x, isWs b :=
  lossy_iff_of_ascii (P := fun y => ∀ b ∈ y, isWs b) fun _ h b hb => isWs_lt (h b hb)

/-- The stamp is the one field of its name and carries the id exactly when the mail it is put on
begins with no more than blank continuation lines and has no field of that name left. -/
theorem stamp_authoritative_iff {raw out : Bytes} {id : SessionId}
    (h : stampSession raw id = .ok out) :
    stampValues out = [id.hex] ↔
      (∀ b ∈ (fold (block (withoutOwn raw))).1, isWs b) ∧
        ∀ f ∈ (fold (block (withoutOwn raw))).2, name f ≠ some stampName := by
  rw [stampSession_eq h, stampValues, block_stampLine, block_lossy,
    fold_cons_field (not_isCont_stampText id), fold_map_lossy,
    List.filter_cons_of_pos (by simp [name_stampText]), List.map_cons, List.cons_eq_cons,
    value_stampText_iff, forall_isWs_lossy, List.map_eq_nil_iff, List.filter_eq_nil_iff]
  simp [name_lossy (w := stampName) (by simp [stampName, ascii])]

theorem stamp_authoritative_iff_plain :
    stampValues (stampLine zeroId ++ ascii "From: a@b\r\n\r\nhi") = [zeroId.hex] ↔
      (∀ b ∈ (fold (block (withoutOwn (ascii "From: a@b\r\n\r\nhi")))).1, isWs b) ∧
        ∀ f ∈ (fold (block (withoutOwn (ascii "From: a@b\r\n\r\nhi")))).2,
          name f ≠ some stampName := by
  have h : stampSession (ascii "From: a@b\r\n\r\nhi") zeroId =
      .ok (stampLine zeroId ++ ascii "From: a@b\r\n\r\nhi") := by decide +kernel
  exact stamp_authoritative_iff h

/-- A space before the colon brings a second stamp past the loop. -/
theorem stampSession_passes_spaced_name :
    (stampSession (ascii "X-TOT-Session : 00\r\nFrom: a@b\r\n\r\nhi") zeroId).toOption.map
        stampValues = some [zeroId.hex, ascii "00"] ∧
      (stampSession (ascii "X-TOT-Session : 00\r\nFrom: a@b\r\n\r\nhi") zeroId).toOption.map
        stampValues ≠ some [zeroId.hex] := by
  decide +kernel

-- a folded stamp of the client loses its first line only, and the rest joins the stamp of TOT
example :
    (stampSession (ascii "X-TOT-Session: 00\r\n 11\r\nFrom: a@b\r\n\r\nhi") zeroId).toOption.map
      stampValues = some [zeroId.hex ++ ascii " 11"] := by
  decide +kernel

end Tot
