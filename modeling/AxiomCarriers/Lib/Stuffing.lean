import AxiomCarriers.Lib.Bytes

/-!
# CR LF lines and dot stuffing

A text is a row of pieces with CR LF between them (`splitCrlf`), each without CR LF inside
(`Piece`), and `crlf_induction` follows this cut.  Mail protocols end a text with a line that is a
single dot (`dotLine`); a text keeps clear of it by one dot more on every line that begins with one
(`addDot`), which the reader takes off again (`dropDot`).  Replacing every CR LF dot by CR LF dot
dot does that to every piece but the first (`splitCrlf_stuffDots`), and the first line that is a dot
ends the text wherever no piece but the first is a dot (`cut_dotLine`).
-/

namespace Bytes

/-! ## Pieces -/

/-- No CR LF inside. -/
def Piece (p : Bytes) : Prop := ¬ crlf <:+: p

theorem piece_cons {b : UInt8} {p : Bytes} (h : Piece (b :: p)) : Piece p :=
  fun hp => h (hp.trans (List.suffix_cons b p).isInfix)

theorem piece_nil : Piece [] := by
  unfold Piece
  decide

theorem crlf_not_prefixed {b : UInt8} {p : Bytes} (h : Piece (b :: p)) (r : Bytes) :
    ¬ crlf <+: (b :: p) ++ crlf ++ r := by
  cases p with
  | nil =>
    have hne : LF ≠ CR := by decide
    simp [crlf, List.cons_prefix_cons, hne]
  | cons c p =>
    rintro hp
    simp only [crlf, List.cons_append, List.cons_prefix_cons] at hp
    obtain ⟨rfl, rfl, -⟩ := hp
    exact h (List.prefix_append [CR, LF] p).isInfix

theorem splitCrlf_nil : splitCrlf [] = [[]] := by rw [splitCrlf]

theorem splitCrlf_crlf (r : Bytes) : splitCrlf (crlf ++ r) = [] :: splitCrlf r := by
  rw [List.cons_append, splitCrlf, if_pos (by simp [crlf])]
  rfl

theorem splitCrlf_cons {b : UInt8} {r l : Bytes} {ls : List Bytes} (h : ¬ crlf <+: b :: r)
    (hr : splitCrlf r = l :: ls) : splitCrlf (b :: r) = (b :: l) :: ls := by
  rw [splitCrlf, if_neg h, hr]

theorem splitCrlf_piece {p : Bytes} (hp : Piece p) (r : Bytes) :
    splitCrlf (p ++ crlf ++ r) = p :: splitCrlf r := by
  induction p with
  | nil => exact splitCrlf_crlf r
  | cons b p ih => exact splitCrlf_cons (crlf_not_prefixed hp r) (ih (piece_cons hp))

theorem splitCrlf_last {p : Bytes} (hp : Piece p) : splitCrlf p = [p] := by
  induction p with
  | nil => exact splitCrlf_nil
  | cons b p ih => exact splitCrlf_cons (fun h => hp h.isInfix) (ih (piece_cons hp))

/-- Induction over the pieces of a byte string. -/
theorem crlf_induction {P : Bytes → Prop} (last : ∀ p, Piece p → P p)
    (piece : ∀ p r, Piece p → P r → P (p ++ crlf ++ r)) (b : Bytes) : P b := by
  have h : ∀ b, Piece b ∨ ∃ p r, Piece p ∧ b = p ++ crlf ++ r := by
    intro b
    induction b with
    | nil => exact Or.inl piece_nil
    | cons c b ih =>
      by_cases hc : crlf <+: c :: b
      · obtain ⟨r, hr⟩ := hc
        exact Or.inr ⟨[], r, piece_nil, hr.symm⟩
      · rcases ih with hb | ⟨p, r, hp, rfl⟩
        · exact Or.inl fun h => (List.infix_cons_iff.1 h).elim hc hb
        · refine Or.inr ⟨c :: p, r, fun h => ?_, rfl⟩
          rcases List.infix_cons_iff.1 h with h | h
          · exact hc (h.trans ⟨crlf ++ r, by simp⟩)
          · exact hp h
  induction hn : b.length using Nat.strongRecOn generalizing b with
  | ind n ih =>
    rcases h b with hb | ⟨p, r, hp, rfl⟩
    · exact last b hb
    · rw [List.length_append, List.length_append] at hn
      exact piece p r hp (ih r.length (by simp at hn; omega) r rfl)

theorem splitCrlf_ne_nil (b : Bytes) : splitCrlf b ≠ [] := by
  induction b using crlf_induction with
  | last p hp =>
    rw [splitCrlf_last hp]
    exact List.cons_ne_nil p []
  | piece p r hp _ =>
    rw [splitCrlf_piece hp]
    exact List.cons_ne_nil p _

theorem piece_of_mem_splitCrlf {b l : Bytes} (h : l ∈ splitCrlf b) : Piece l := by
  induction b using crlf_induction with
  | last p hp =>
    rw [splitCrlf_last hp, List.mem_singleton] at h
    rwa [h]
  | piece p r hp ih =>
    rw [splitCrlf_piece hp] at h
    rcases List.mem_cons.1 h with rfl | h
    · exact hp
    · exact ih h

theorem intercalate_cons {sep l : Bytes} {ls : List Bytes} (h : ls ≠ []) :
    sep.intercalate (l :: ls) = l ++ sep ++ sep.intercalate ls := by
  obtain ⟨l', ls, rfl⟩ := List.exists_cons_of_ne_nil h
  exact List.intercalate_cons_cons

/-- The pieces put together give the text. -/
theorem intercalate_splitCrlf (b : Bytes) : crlf.intercalate (splitCrlf b) = b := by
  induction b using crlf_induction with
  | last p hp => simp [splitCrlf_last hp]
  | piece p r hp ih => rw [splitCrlf_piece hp, intercalate_cons (splitCrlf_ne_nil r), ih]

/-- A text put together from pieces has these pieces. -/
theorem splitCrlf_intercalate {ls : List Bytes} (hne : ls ≠ []) (h : ∀ l ∈ ls, Piece l) :
    splitCrlf (crlf.intercalate ls) = ls := by
  induction ls with
  | nil => exact absurd rfl hne
  | cons l ls ih =>
    have hl := h l List.mem_cons_self
    by_cases hls : ls = []
    · simp [hls, splitCrlf_last hl]
    · rw [intercalate_cons hls, splitCrlf_piece hl,
        ih hls fun x hx => h x (List.mem_cons_of_mem _ hx)]

theorem splitCrlf_append_crlf (a r : Bytes) :
    splitCrlf (a ++ crlf ++ r) = splitCrlf a ++ splitCrlf r := by
  induction a using crlf_induction with
  | last p hp => rw [splitCrlf_piece hp, splitCrlf_last hp, List.singleton_append]
  | piece p s hp ih =>
    have h : p ++ crlf ++ s ++ crlf ++ r = p ++ crlf ++ (s ++ crlf ++ r) := by simp
    rw [h, splitCrlf_piece hp, ih, splitCrlf_piece hp, List.cons_append]

/-! ## Replacing -/

/-- The text with the occurrences of `old` replaced; the first `n` bytes belong to one that began
before. -/
def replaceFrom (old new : Bytes) : ℕ → Bytes → Bytes
  | _, [] => []
  | n + 1, _ :: r => replaceFrom old new n r
  | 0, b :: r =>
    if old <+: b :: r then new ++ replaceFrom old new (old.length - 1) r
    else b :: replaceFrom old new 0 r

/-- `replace`, from the left. -/
def replace (old new b : Bytes) : Bytes := replaceFrom old new 0 b

/-! ## Dots -/

def dot : UInt8 := 46

def addDot (l : Bytes) : Bytes := if l.head? = some dot then dot :: l else l

def dropDot (l : Bytes) : Bytes := if [dot, dot] <+: l then l.tail else l

/-- A line that is a single dot, with the CR LF before it. -/
def dotLine : Bytes := crlf ++ dot :: crlf

theorem dropDot_addDot (l : Bytes) : dropDot (addDot l) = l := by
  cases l with
  | nil => rfl
  | cons b l =>
    by_cases hb : b = dot
    · simp [addDot, dropDot, hb]
    · simp [addDot, dropDot, hb, Ne.symm hb]

theorem addDot_ne_dot (l : Bytes) : addDot l ≠ [dot] := by
  cases l with
  | nil => simp [addDot]
  | cons b l =>
    by_cases hb : b = dot
    · simp [addDot, hb]
    · simp [addDot, hb]

theorem dropDot_append_crlf (p r : Bytes) : dropDot (p ++ crlf ++ r) = dropDot p ++ crlf ++ r := by
  have hcr : dot ≠ CR := by decide
  rcases p with _ | ⟨b, _ | ⟨c, p⟩⟩
  · simp [dropDot, List.cons_prefix_cons, hcr]
  · simp [dropDot, List.cons_prefix_cons, hcr]
  · by_cases h : dot = b ∧ dot = c
    · obtain ⟨rfl, rfl⟩ := h
      simp [dropDot, List.cons_prefix_cons]
    · simp [dropDot, List.cons_prefix_cons, h]

theorem dropDot_eq_self_iff {l : Bytes} : dropDot l = l ↔ ¬ [dot, dot] <+: l := by
  unfold dropDot
  split_ifs with h
  · obtain ⟨r, rfl⟩ := h
    simp
  · simp [h]

theorem length_dropDot_le (l : Bytes) : (dropDot l).length ≤ l.length := by
  unfold dropDot
  split_ifs <;> simp

theorem length_dropDot {l : Bytes} (h : dropDot l ≠ l) : (dropDot l).length + 1 = l.length := by
  unfold dropDot at h ⊢
  split_ifs at h ⊢ with hl
  · have hlen := hl.length_le
    rw [List.length_tail]
    simp only [List.length_cons, List.length_nil] at hlen
    omega
  · exact absurd rfl h

theorem piece_dropDot {l : Bytes} (h : Piece l) : Piece (dropDot l) := by
  unfold dropDot
  split_ifs
  · exact fun hp => h (hp.trans (List.tail_suffix l).isInfix)
  · exact h

theorem piece_addDot {l : Bytes} (h : Piece l) : Piece (addDot l) := by
  unfold addDot
  split_ifs
  · intro hp
    rcases List.infix_cons_iff.1 hp with hp | hp
    · exact absurd (List.cons_prefix_cons.1 hp).1 (by decide)
    · exact h hp
  · exact h

/-- The dots of a text doubled at the beginning of every CR LF line but the first. -/
def stuffDots (b : Bytes) : Bytes := replace (crlf ++ [dot]) (crlf ++ [dot, dot]) b

theorem stuffDots_nil : stuffDots [] = [] := rfl

theorem stuffDots_ne_nil (b : UInt8) (r : Bytes) : stuffDots (b :: r) ≠ [] := by
  rw [stuffDots, replace, replaceFrom]
  split_ifs <;> simp

theorem head?_stuffDots (b : Bytes) : (stuffDots b).head? = b.head? := by
  cases b with
  | nil => rfl
  | cons b r =>
    rw [stuffDots, replace, replaceFrom]
    split_ifs with h
    · exact congrArg some (List.cons_prefix_cons.1 h).1
    · rfl

theorem stuffDots_cons {b : UInt8} {r : Bytes} (h : ¬ crlf ++ [dot] <+: b :: r) :
    stuffDots (b :: r) = b :: stuffDots r := by
  rw [stuffDots, replace, replaceFrom, if_neg h]
  rfl

theorem stuffDots_dot (r : Bytes) : stuffDots (dot :: r) = dot :: stuffDots r :=
  stuffDots_cons fun h => absurd (List.cons_prefix_cons.1 h).1 (by decide)

theorem stuffDots_crlf (r : Bytes) :
    stuffDots (crlf ++ r) = crlf ++ (if r.head? = some dot then [dot] else []) ++ stuffDots r := by
  split_ifs with h
  · obtain ⟨r, rfl⟩ : ∃ r', r = dot :: r' := by
      cases r with
      | nil => simp at h
      | cons b r => exact ⟨r, by simpa using h⟩
    rw [stuffDots_dot]
    rfl
  · have hcr : ¬ crlf ++ [dot] <+: crlf ++ r := by
      rintro ⟨t, ht⟩
      rw [List.append_assoc, List.append_cancel_left_eq] at ht
      simp [← ht] at h
    rw [List.cons_append, List.cons_append, List.nil_append,
      stuffDots_cons (by simpa using hcr),
      stuffDots_cons fun hb => absurd (List.cons_prefix_cons.1 hb).1 (by decide)]
    simp

theorem stuffDots_piece {p : Bytes} (hp : Piece p) (r : Bytes) :
    stuffDots (p ++ crlf ++ r) = p ++ stuffDots (crlf ++ r) := by
  induction p with
  | nil => rfl
  | cons b p ih =>
    have h : ¬ crlf <+: b :: (p ++ crlf ++ r) := crlf_not_prefixed hp r
    show stuffDots (b :: (p ++ crlf ++ r)) = b :: (p ++ stuffDots (crlf ++ r))
    rw [stuffDots_cons fun hb => h ((List.prefix_append crlf [dot]).trans hb), ih (piece_cons hp)]

theorem stuffDots_last {p : Bytes} (hp : Piece p) : stuffDots p = p := by
  induction p with
  | nil => rfl
  | cons b p ih =>
    rw [stuffDots_cons fun hb => hp ((List.prefix_append crlf [dot]).trans hb).isInfix,
      ih (piece_cons hp)]

/-- The pieces of a stuffed text. -/
def stuffTail : List Bytes → List Bytes
  | [] => []
  | p :: ls => p :: ls.map addDot

/-- The first piece begins as the text does. -/
theorem prefix_splitCrlf (b : Bytes) : ∃ l ls, splitCrlf b = l :: ls ∧ l <+: b ∧
    (l.head? = some dot ↔ b.head? = some dot) := by
  induction b using crlf_induction with
  | last p hp => exact ⟨p, [], splitCrlf_last hp, List.prefix_refl p, Iff.rfl⟩
  | piece p r hp _ =>
    refine ⟨p, splitCrlf r, splitCrlf_piece hp r, ⟨crlf ++ r, by simp⟩, ?_⟩
    cases p with
    | nil => exact ⟨fun h => by simp at h, fun h => absurd (Option.some.inj h) (by decide)⟩
    | cons b p => rfl

theorem splitCrlf_dot_cons {b l : Bytes} {ls : List Bytes} (h : splitCrlf b = l :: ls) :
    splitCrlf (dot :: b) = (dot :: l) :: ls :=
  splitCrlf_cons (fun hp => absurd (List.cons_prefix_cons.1 hp).1 (by decide)) h

theorem splitCrlf_stuffDots (b : Bytes) : splitCrlf (stuffDots b) = stuffTail (splitCrlf b) := by
  induction b using crlf_induction with
  | last p hp =>
    rw [stuffDots_last hp, splitCrlf_last hp]
    rfl
  | piece p r hp ih =>
    obtain ⟨l, ls, hr, -, hl⟩ := prefix_splitCrlf r
    rw [hr] at ih
    rw [stuffDots_piece hp, stuffDots_crlf, List.append_assoc, ← List.append_assoc,
      splitCrlf_piece hp, splitCrlf_piece hp, hr]
    simp only [stuffTail, List.map_cons, addDot, hl]
    split_ifs
    · rw [List.singleton_append, splitCrlf_dot_cons ih]
    · rw [List.nil_append, ih]
      rfl

theorem stuffDots_append_crlf (b : Bytes) : stuffDots (b ++ crlf) = stuffDots b ++ crlf := by
  induction b using crlf_induction with
  | last p hp =>
    have h := stuffDots_piece hp []
    rw [List.append_nil, List.append_nil] at h
    rw [h, stuffDots_last hp]
    rfl
  | piece p r hp ih =>
    have hhead : (r ++ crlf).head? = some dot ↔ r.head? = some dot := by
      cases r with
      | nil => exact ⟨fun h => absurd (Option.some.inj h) (by decide), fun h => by simp at h⟩
      | cons b r => rfl
    rw [List.append_assoc, stuffDots_piece hp, stuffDots_piece hp, stuffDots_crlf, stuffDots_crlf,
      ih]
    simp only [hhead, List.append_assoc]

/-- A text with a line of its own ends in CR LF if what follows the line is nothing or does. -/
theorem crlf_suffix_piece (p r : Bytes) : crlf <:+ p ++ crlf ++ r ↔ r = [] ∨ crlf <:+ r := by
  constructor
  · intro h
    rcases r with _ | ⟨c, _ | ⟨d, r⟩⟩
    · exact Or.inl rfl
    · have hlast : [LF, c] <:+ p ++ crlf ++ [c] := ⟨p ++ [CR], by simp⟩
      have heq := List.suffix_of_suffix_length_le h hlast le_rfl
      exact absurd (List.cons.inj (heq.eq_of_length rfl)).1 (by decide)
    · exact Or.inr (List.suffix_of_suffix_length_le h (List.suffix_append _ _) (by simp))
  · rintro (rfl | h)
    · exact ⟨p, by simp⟩
    · exact h.trans (List.suffix_append _ _)

theorem crlf_suffix_stuffDots {b : Bytes} (h : crlf <:+ stuffDots b) : crlf <:+ b := by
  induction b using crlf_induction with
  | last p hp => rwa [stuffDots_last hp] at h
  | piece p r hp ih =>
    apply (crlf_suffix_piece p r).2
    rw [stuffDots_piece hp, stuffDots_crlf, List.append_assoc, ← List.append_assoc,
      crlf_suffix_piece] at h
    by_cases hr : r.head? = some dot
    · rw [if_pos hr] at h
      refine Or.inr (ih ?_)
      apply (List.suffix_cons_iff.1 (h.resolve_left (List.cons_ne_nil dot _))).resolve_left
      exact fun he => absurd (List.cons.inj he).1 (by decide)
    · rw [if_neg hr, List.nil_append] at h
      cases r with
      | nil => exact Or.inl rfl
      | cons c r => exact Or.inr (ih (h.resolve_left (stuffDots_ne_nil c r)))

/-! ## LF lines -/

theorem piece_of_lf {x : Bytes} (h : LF ∉ x) : Piece x :=
  fun hp => h (hp.subset (List.mem_cons_of_mem CR (List.mem_singleton.2 rfl)))

/-- The text with its dots doubled, also at its beginning if `fresh`. -/
def stuffText (fresh : Bool) (d : Bytes) : Bytes :=
  (if fresh ∧ d.head? = some dot then [dot] else []) ++ stuffDots d

/-- The line with its dot doubled, if it is looked for. -/
def stuffLine (fresh : Bool) (l : Bytes) : Bytes := if fresh then addDot l else l

/-- The lines of a text with their dots doubled: they are looked for behind CR LF. -/
def stuffLines : Bool → List Bytes → List Bytes
  | _, [] => []
  | fresh, l :: ls => stuffLine fresh l :: stuffLines (crlf <:+ l) ls

theorem stuffDots_line {x : Bytes} (h : LF ∉ x) (r : Bytes) :
    stuffDots (x ++ LF :: r) = x ++ LF :: stuffText (crlf <:+ x ++ [LF]) r := by
  by_cases hx : crlf <:+ x ++ [LF]
  · obtain ⟨y, hy⟩ := hx
    obtain rfl : y ++ [CR] = x := (List.append_inj' (show y ++ [CR] ++ [LF] = x ++ [LF] by simpa using hy) rfl).1
    have hlf : LF ∉ y := fun hm => h (List.mem_append_left _ hm)
    have hsuf : crlf <:+ y ++ [CR] ++ [LF] := ⟨y, by simp⟩
    have hsplit : y ++ [CR] ++ LF :: r = y ++ crlf ++ r := by simp
    rw [hsplit, stuffDots_piece (piece_of_lf hlf), stuffDots_crlf, stuffText, decide_eq_true hsuf]
    simp
  · rw [decide_eq_false hx, stuffText]
    induction x with
    | nil => exact stuffDots_cons fun hp => absurd (List.cons_prefix_cons.1 hp).1 (by decide)
    | cons b x ih =>
      rw [List.mem_cons, not_or] at h
      have hx' : ¬ crlf <:+ x ++ [LF] := fun hs => hx (hs.trans (List.suffix_cons b _))
      rw [List.cons_append, stuffDots_cons, ih h.2 hx']
      · rfl
      · intro hp
        cases x with
        | nil =>
          obtain rfl := (List.cons_prefix_cons.1 hp).1
          exact hx (List.suffix_refl _)
        | cons c x =>
          have hc := (List.cons_prefix_cons.1 (List.cons_prefix_cons.1 hp).2).1
          exact h.2 (hc ▸ List.mem_cons_self)

/-- The lines of a stuffed text. -/
theorem lines_stuffText (fresh : Bool) (d : Bytes) :
    lines (stuffText fresh d) = stuffLines fresh (lines d) := by
  have hstuff : ∀ (fresh : Bool) (l : Bytes),
      (if fresh ∧ l.head? = some dot then [dot] else []) ++ l = stuffLine fresh l := by
    intro fresh l
    cases fresh
    · simp [stuffLine]
    · by_cases hl : l.head? = some dot <;> simp [stuffLine, addDot, hl]
  have hlf : ∀ (x : Bytes) (doubled : Prop) [Decidable doubled], LF ∉ x →
      LF ∉ (if doubled then [dot] else []) ++ x := by
    intro x doubled _ hx
    have hd : LF ≠ dot := by decide
    split_ifs <;> simp [hx, hd]
  induction d using lines_induction generalizing fresh with
  | nil => simp [stuffText, stuffDots_nil, stuffLines]
  | last x hx h =>
    rw [stuffText, stuffDots_last (piece_of_lf h), lines_last (by simp [hx]) (hlf x _ h),
      lines_last hx h, hstuff]
    rfl
  | line x r h ih =>
    have hhead : (x ++ LF :: r).head? = (x ++ [LF]).head? := by cases x <;> rfl
    rw [stuffText, hhead, stuffDots_line h, ← List.append_assoc, lines_line (hlf x _ h), ih,
      lines_line h, List.append_assoc, hstuff]
    rfl

/-! ## The end of a text -/

/-- No dot line begins inside a piece. -/
theorem cut_dotLine_piece {p : Bytes} (hp : Piece p) (s : Bytes) :
    cut dotLine (p ++ crlf ++ s) = (cut dotLine (crlf ++ s)).map fun x => (p ++ x.1, x.2) := by
  induction p with
  | nil => simp
  | cons b p ih =>
    have h : ¬ dotLine <+: b :: (p ++ crlf ++ s) := fun hb =>
      crlf_not_prefixed hp s ((List.prefix_append crlf _).trans hb)
    show cut dotLine (b :: (p ++ crlf ++ s)) = _
    rw [cut, if_neg h, ih (piece_cons hp), Option.map_map]
    rfl

theorem cut_dotLine_crlf (s : Bytes) : cut dotLine (crlf ++ s) =
    if dot :: crlf <+: s then some ([], s.drop 3)
    else (cut dotLine s).map fun x => (crlf ++ x.1, x.2) := by
  have hdot : dotLine <+: CR :: LF :: s ↔ dot :: crlf <+: s := List.prefix_append_right_inj crlf
  have hlf : ¬ dotLine <+: LF :: s := fun h => absurd (List.cons_prefix_cons.1 h).1 (by decide)
  show cut dotLine (CR :: LF :: s) = _
  rw [cut, cut, if_neg hlf]
  by_cases h : dot :: crlf <+: s
  · rw [if_pos (hdot.2 h), if_pos h]
    rfl
  · rw [if_neg fun hp => h (hdot.1 hp), if_neg h, Option.map_map]
    rfl

theorem last_dotLine (p r : Bytes) : p ++ dotLine ++ r = p ++ crlf ++ (dot :: crlf ++ r) := by
  simp [dotLine]

theorem piece_dotLine (p s r : Bytes) :
    p ++ crlf ++ s ++ dotLine ++ r = p ++ crlf ++ (s ++ dotLine ++ r) := by
  simp

/-- The text goes on with a dot line exactly where its first piece is a dot. -/
theorem dot_prefix_iff (a r : Bytes) :
    dot :: crlf <+: a ++ dotLine ++ r ↔ (splitCrlf a).head? = some [dot] := by
  have key : ∀ p s, Piece p → (dot :: crlf <+: p ++ crlf ++ s ↔ p = [dot]) := by
    intro p s hp
    constructor
    · intro h
      cases p with
      | nil => exact absurd (List.cons_prefix_cons.1 h).1 (by decide)
      | cons b p =>
        obtain ⟨rfl, h⟩ := List.cons_prefix_cons.1 h
        cases p with
        | nil => rfl
        | cons c p =>
          exact absurd (List.cons_prefix_cons.1 h).2 (crlf_not_prefixed (piece_cons hp) s)
    · rintro rfl
      exact ⟨s, by simp⟩
  induction a using crlf_induction with
  | last p hp =>
    rw [splitCrlf_last hp, last_dotLine, key p _ hp]
    simp
  | piece p s hp _ =>
    rw [splitCrlf_piece hp, piece_dotLine, key p _ hp]
    simp

/-- A text ends where the writer ends it, if no piece but its first is a dot. -/
theorem cut_dotLine {a : Bytes} (h : [dot] ∉ (splitCrlf a).tail) (r : Bytes) :
    cut dotLine (a ++ dotLine ++ r) = some (a, r) := by
  induction a using crlf_induction with
  | last p hp =>
    have hend : dot :: crlf <+: dot :: crlf ++ r := List.prefix_append _ r
    rw [last_dotLine, cut_dotLine_piece hp, cut_dotLine_crlf, if_pos hend]
    simp
  | piece p s hp ih =>
    rw [splitCrlf_piece hp, List.tail_cons] at h
    have hs : ¬ dot :: crlf <+: s ++ dotLine ++ r := fun hd =>
      h (List.mem_of_head? ((dot_prefix_iff s r).1 hd))
    rw [piece_dotLine, cut_dotLine_piece hp, cut_dotLine_crlf, if_neg hs,
      ih fun ht => h (List.mem_of_mem_tail ht)]
    simp

/-- Otherwise it ends before, and the reader leaves bytes of it. -/
theorem cut_dotLine_early {a : Bytes} (h : [dot] ∈ (splitCrlf a).tail) (r : Bytes) :
    ∃ a' r', cut dotLine (a ++ dotLine ++ r) = some (a', r') ∧ r.length < r'.length := by
  induction a using crlf_induction with
  | last p hp => simp [splitCrlf_last hp] at h
  | piece p s hp ih =>
    rw [splitCrlf_piece hp, List.tail_cons] at h
    rw [piece_dotLine, cut_dotLine_piece hp, cut_dotLine_crlf]
    by_cases hs : dot :: crlf <+: s ++ dotLine ++ r
    · rw [if_pos hs]
      refine ⟨_, _, rfl, ?_⟩
      simp only [List.length_drop, List.length_append, dotLine, List.length_cons, List.length_nil]
      omega
    · have ht : [dot] ∈ (splitCrlf s).tail := by
        obtain ⟨l, ls, hls, -⟩ := prefix_splitCrlf s
        rw [hls] at h ⊢
        refine (List.mem_cons.1 h).resolve_left fun hl => hs ((dot_prefix_iff s r).2 ?_)
        rw [hls, hl]
        rfl
      obtain ⟨a', r', hcut, hlen⟩ := ih ht
      rw [if_neg hs, hcut]
      exact ⟨_, _, rfl, hlen⟩

end Bytes
