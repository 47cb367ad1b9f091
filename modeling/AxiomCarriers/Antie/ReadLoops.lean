import AxiomCarriers.Antie.Imap
import AxiomCarriers.Antie.Pop3
import AxiomCarriers.Lib.Loop

/-!
# The read loops of the carriers

The loops of `imap_command`, `fetch_message`, `read_multiline`, `read_exact` and of the replies to
`SmtpCarrier::send`, read by read.  A `Reader` says what a loop does with a line; the machine `step`
fills the buffer with the next chunk, collects a line or the bytes of a literal from it, and goes on
with the reader.  At the end of the chunks a read gives nothing, now and ever after.

No reader of this form can spin (`reader_returns`), and its result does not depend on the chunks
(`returns_iff`).  At the end of the stream `read_line` returns what it has of a line, and the
readers take it for a line; and `fetch_message` panics at a line that announces more than there is a
buffer for.  So they fail with an error at every stream that ends before what they wait for, but for
those that break off inside a line that as it stands completes the reader, or come to such a literal
(`readLoops_err_iff`).
-/

namespace Antie.ReadLoops

open Bytes Utf8 Text Loops

/-! ## Streams and readers -/

/-- What is left to read: the buffer of the `BufReader`, and the chunks of the reads to come. -/
structure Source where
  buffer : Bytes
  chunks : List Bytes

/-- `fill_buf`: an empty buffer takes the next chunk. -/
def Source.fill : Source → Source
  | ⟨[], c :: cs⟩ => ⟨c, cs⟩
  | src => src

def Source.rest (src : Source) : Bytes := src.buffer ++ src.chunks.flatten

section

variable (σ α : Type)

/-- A call of `read_exact`: the texts of its error, the number of bytes, and how the loop goes on
with them or ends. -/
structure Literal where
  what : Bytes
  detail : Bytes
  size : ℕ
  go : Bytes → σ ⊕ Except CarrierError α

/-- What a reader does next. -/
inductive Next
  | line (s : σ)
  | literal (lit : Literal σ α)
  | done (r : Except CarrierError α)

/-- A read loop with the variables `σ`: the text of its errors, and what it does with a line. -/
structure Reader where
  what : Bytes
  onLine : σ → Bytes → Next σ α

/-- Where the loop is, with what it has of the line or the literal. -/
inductive Pc
  | line (s : σ) (acc : Bytes)
  | literal (lit : Literal σ α) (acc : Bytes)

end

variable {σ α : Type} (R : Reader σ α)

/-- The line has been read. -/
def Reader.finish (s : σ) (l : Bytes) (src : Source) :
    (Pc σ α × Source) ⊕ Except CarrierError α :=
  if ¬ Valid l then .inr (.error (.notUtf8 R.what))
  else match R.onLine s l with
    | .line s' => .inl (.line s' [], src)
    | .literal lit => .inl (.literal lit [], src)
    | .done r => .inr r

/-- One read, or the end of a literal. -/
def step : Pc σ α × Source → (Pc σ α × Source) ⊕ Except CarrierError α
  | (.line s acc, src) =>
    let src := src.fill
    match cut [LF] src.buffer with
    | some (x, rest) => R.finish s (acc ++ (x ++ [LF])) { src with buffer := rest }
    | none =>
      if src.buffer ≠ [] then .inl (.line s (acc ++ src.buffer), { src with buffer := [] })
      else if acc = [] then .inr (.error (.eof R.what))
      else R.finish s acc src
  | (.literal lit acc, src) =>
    if lit.size ≤ acc.length then
      match lit.go acc with
      | .inl s => .inl (.line s [], src)
      | .inr r => .inr r
    else
      let src := src.fill
      let got := src.buffer.take (lit.size - acc.length)
      if got = [] then .inr (.error (.short lit.what lit.detail (lit.size - acc.length)))
      else .inl (.literal lit (acc ++ got), { src with buffer := src.buffer.drop got.length })

/-! ## No reader can spin -/

/-- What is left to read, three times, and how far the loop is from the next line. -/
def measure : Pc σ α × Source → ℕ
  | (.line _ acc, src) =>
    3 * (src.rest.length + src.chunks.length) + if acc = [] then 0 else 2
  | (.literal _ _, src) => 3 * (src.rest.length + src.chunks.length) + 1

theorem Source.length_fill (src : Source) :
    src.fill.rest = src.rest ∧ src.fill.chunks.length ≤ src.chunks.length := by
  obtain ⟨buffer, chunks⟩ := src
  cases buffer with
  | cons b bs => exact ⟨rfl, le_rfl⟩
  | nil =>
    cases chunks with
    | nil => exact ⟨rfl, le_rfl⟩
    | cons c cs => exact ⟨rfl, Nat.le_succ _⟩

theorem finish_measure {s : σ} {l : Bytes} {src : Source} {next : Pc σ α × Source}
    (h : R.finish s l src = .inl next) :
    measure next ≤ 3 * (src.rest.length + src.chunks.length) + 1 := by
  unfold Reader.finish at h
  split at h
  · cases h
  · split at h
    · obtain rfl := Sum.inl.inj h
      exact Nat.le_succ _
    · obtain rfl := Sum.inl.inj h
      exact le_rfl
    · cases h

theorem cut_lf_length {b x rest : Bytes} (h : cut [LF] b = some (x, rest)) :
    b.length = x.length + rest.length + 1 := by
  rw [cut_eq h]
  simp [Nat.add_assoc]

theorem step_measure (p next : Pc σ α × Source) (h : step R p = .inl next) :
    measure next < measure p := by
  obtain ⟨pc, src⟩ := p
  obtain ⟨hrest, hchunks⟩ := src.length_fill
  have hlen := congrArg List.length hrest
  cases pc with
  | line s acc =>
    simp only [step] at h
    split at h
    next x rest hcut =>
      have hcut := cut_lf_length hcut
      have hfin := finish_measure R h
      simp only [Source.rest, List.length_append, measure] at hlen hfin ⊢
      omega
    next hcut =>
      split at h
      next hne =>
        obtain rfl := Sum.inl.inj h
        have hpos := List.length_pos_of_ne_nil hne
        have hacc : acc ++ src.fill.buffer ≠ [] := by simp [hne]
        simp only [Source.rest, List.length_append, measure, if_neg hacc, List.length_nil]
          at hlen ⊢
        omega
      · split at h
        · cases h
        next hacc =>
          have hfin := finish_measure R h
          simp only [Source.rest, List.length_append, measure, if_neg hacc] at hlen hfin ⊢
          omega
  | literal lit acc =>
    simp only [step] at h
    split at h
    · split at h
      · obtain rfl := Sum.inl.inj h
        exact Nat.lt_succ_self _
      · cases h
    · split at h
      · cases h
      next hgot =>
        obtain rfl := Sum.inl.inj h
        have hpos := List.length_pos_of_ne_nil hgot
        rw [List.length_take] at hpos
        simp only [Source.rest, List.length_append, measure, List.length_drop, List.length_take]
          at hlen ⊢
        omega

/-- Whatever a reader does with its lines, and however the stream comes, the loop ends. -/
theorem reader_returns (pc : Pc σ α) (src : Source) : ∃ r, Returns (step R) (pc, src) r :=
  exists_returns measure (step_measure R) (pc, src)

/-! ## The result does not depend on the chunks -/

/-- No chunk is empty: only the end of the stream gives a read of nothing. -/
def Source.Flows (src : Source) : Prop := ∀ c ∈ src.chunks, c ≠ []

theorem Source.Flows.fill {src : Source} (h : src.Flows) : src.fill.Flows := by
  obtain ⟨_ | ⟨b, bs⟩, _ | ⟨c, cs⟩⟩ := src
  · exact h
  · exact fun d hd => h d (List.mem_cons_of_mem c hd)
  · exact h
  · exact h

theorem Source.Flows.rest_eq_nil {src : Source} (h : src.Flows) (hb : src.fill.buffer = []) :
    src.rest = [] := by
  obtain ⟨_ | ⟨b, bs⟩, _ | ⟨c, cs⟩⟩ := src
  · rfl
  · exact absurd hb (h c List.mem_cons_self)
  · cases hb
  · cases hb

theorem lf_notMem_of_cut {b : Bytes} (h : cut [LF] b = none) : LF ∉ b := by
  intro hlf
  obtain ⟨x, r, rfl, hx⟩ := List.eq_append_cons_of_mem hlf
  simp [cut_byte hx] at h

theorem cut_lf {b x rest : Bytes} (h : cut [LF] b = some (x, rest)) :
    b = x ++ LF :: rest ∧ LF ∉ x := by
  have hb := cut_eq h
  have hlf : LF ∈ b := by simp [hb]
  obtain ⟨y, r, rfl, hy⟩ := List.eq_append_cons_of_mem hlf
  rw [cut_byte hy] at h
  obtain ⟨rfl, rfl⟩ := Prod.mk.inj (Option.some.inj h)
  exact ⟨rfl, hy⟩

/-- The loop goes on as the outcome of a step says. -/
def Outcome (o : (Pc σ α × Source) ⊕ Except CarrierError α) (r : Except CarrierError α) : Prop :=
  match o with
  | .inl next => Returns (step R) next r
  | .inr r' => r = r'

theorem returns_step (p : Pc σ α × Source) (r : Except CarrierError α) :
    Returns (step R) p r ↔ Outcome R (step R p) r := by
  unfold Outcome
  split
  next next h => exact returns_of_step h r
  next r' h => exact returns_of_done h r

/-- The loop collects the next line of the stream, in any chunks. -/
theorem returns_line (s : σ) (acc : Bytes) {l : Bytes} {ls : List Bytes} {src : Source} (hacc : LF ∉ acc)
    (hsrc : src.Flows) (hl : lines (acc ++ src.rest) = l :: ls) :
    ∃ src' : Source, src'.Flows ∧ acc ++ src.rest = l ++ src'.rest ∧
      ∀ r, Returns (step R) (.line s acc, src) r ↔ Outcome R (R.finish s l src') r := by
  induction hn : src.rest.length using Nat.strongRecOn generalizing src acc with
  | ind n ih =>
    obtain ⟨hrest, -⟩ := src.length_fill
    have hfill := hsrc.fill
    simp only [returns_step R (.line s acc, src), step]
    cases hcut : cut [LF] src.fill.buffer with
    | some q =>
      obtain ⟨x, rest⟩ := q
      obtain ⟨hb, hx⟩ := cut_lf hcut
      have hsplit : acc ++ src.rest =
          (acc ++ x) ++ LF :: (rest ++ src.fill.chunks.flatten) := by
        rw [← hrest, Source.rest, hb]
        simp
      rw [hsplit, lines_line (by simp [hacc, hx])] at hl
      obtain ⟨rfl, -⟩ := List.cons.inj hl
      refine ⟨{ src.fill with buffer := rest }, hfill, ?_, fun r => by simp⟩
      rw [hsplit]
      simp [Source.rest]
    | none =>
      have hlf := lf_notMem_of_cut hcut
      by_cases hb : src.fill.buffer = []
      · have hnil := hsrc.rest_eq_nil hb
        rw [hnil, List.append_nil] at hl
        have hne : acc ≠ [] := by
          rintro rfl
          cases hl
        rw [lines_last hne hacc] at hl
        obtain ⟨rfl, -⟩ := List.cons.inj hl
        refine ⟨src.fill, hfill, by rw [hrest], fun r => ?_⟩
        simp [hb, hne]
      · have hsplit : acc ++ src.rest =
            (acc ++ src.fill.buffer) ++ Source.rest ⟨[], src.fill.chunks⟩ := by
          rw [← hrest]
          simp [Source.rest]
        have hlen : (Source.rest ⟨[], src.fill.chunks⟩).length < n := by
          have := congrArg List.length hrest
          have := List.length_pos_of_ne_nil hb
          simp only [Source.rest, List.length_append, List.length_nil] at *
          omega
        have hflows : Source.Flows ⟨[], src.fill.chunks⟩ := hfill
        rw [hsplit] at hl
        obtain ⟨src', hsrc', heq, hret⟩ := ih _ hlen _ (by simp [hacc, hlf]) hflows hl rfl
        refine ⟨src', hsrc', hsplit.trans heq, fun r => ?_⟩
        simpa [hb, Outcome] using hret r

/-- The loop collects a literal, in any chunks, or fails by the bytes that are missing. -/
theorem returns_literal (lit : Literal σ α) (acc : Bytes) {src : Source} (hsrc : src.Flows) :
    if src.rest.length < lit.size - acc.length then
      ∀ r, Returns (step R) (.literal lit acc, src) r ↔
        r = .error (.short lit.what lit.detail (lit.size - acc.length - src.rest.length))
    else ∃ src' : Source, src'.Flows ∧ src'.rest = src.rest.drop (lit.size - acc.length) ∧
      ∀ r, Returns (step R) (.literal lit acc, src) r ↔
        match lit.go (acc ++ src.rest.take (lit.size - acc.length)) with
        | .inl s => Returns (step R) (.line s [], src') r
        | .inr r' => r = r' := by
  induction hm : src.rest.length using Nat.strongRecOn generalizing src acc with
  | ind m ih =>
    obtain ⟨hrest, -⟩ := src.length_fill
    have hfill := hsrc.fill
    simp only [returns_step R (.literal lit acc, src), step]
    by_cases hn : lit.size ≤ acc.length
    · have h0 : lit.size - acc.length = 0 := Nat.sub_eq_zero_of_le hn
      rw [if_neg (by omega)]
      refine ⟨src, hsrc, by rw [h0, List.drop_zero], fun r => ?_⟩
      rw [if_pos hn, h0, List.take_zero, List.append_nil]
      cases lit.go acc <;> rfl
    · simp only [if_neg hn]
      by_cases hgot : src.fill.buffer.take (lit.size - acc.length) = []
      · have hb : src.fill.buffer = [] := by
          rw [List.take_eq_nil_iff] at hgot
          exact hgot.resolve_left (by omega)
        have hnil := hsrc.rest_eq_nil hb
        rw [hnil] at hm
        rw [if_pos (by simp at hm; omega)]
        intro r
        simp only [if_pos hgot, Outcome]
        simp at hm
        rw [← hm, Nat.sub_zero]
      · -- what is in the buffer goes into the literal
        simp only [if_neg hgot, Outcome]
        generalize hg : src.fill.buffer.take (lit.size - acc.length) = got at hgot ⊢
        have hpos := List.length_pos_of_ne_nil hgot
        have hle : got.length ≤ lit.size - acc.length := by
          rw [← hg, List.length_take]
          exact Nat.min_le_left _ _
        have hpre : got <+: src.fill.buffer := hg ▸ List.take_prefix _ _
        have hbuf := (List.prefix_iff_eq_append.1 hpre).symm
        have hsplit : src.rest =
            got ++ Source.rest ⟨src.fill.buffer.drop got.length, src.fill.chunks⟩ := by
          rw [← hrest, Source.rest, Source.rest, ← List.append_assoc, ← hbuf]
        have hlen := congrArg List.length hsplit
        have hflows : Source.Flows ⟨src.fill.buffer.drop got.length, src.fill.chunks⟩ := hfill
        generalize (⟨src.fill.buffer.drop got.length, src.fill.chunks⟩ : Source) = src₁ at *
        rw [List.length_append, hm] at hlen
        have hih := @ih src₁.rest.length (by omega) (acc ++ got) src₁ hflows rfl
        have hneed : lit.size - (acc ++ got).length = lit.size - acc.length - got.length := by
          rw [List.length_append]
          omega
        rw [hneed] at hih
        split at hih
        next hshort =>
          rw [if_pos (by omega)]
          intro r
          have hleft : lit.size - acc.length - got.length - src₁.rest.length =
              lit.size - acc.length - m := by omega
          rw [hih r, hleft]
        next hlong =>
          rw [if_neg (by omega)]
          obtain ⟨src', hsrc', heq, hret⟩ := hih
          refine ⟨src', hsrc', ?_, fun r => ?_⟩
          · rw [heq, hsplit, List.drop_append, List.drop_eq_nil_of_le hle, List.nil_append]
          · rw [hret r, hsplit, List.take_append, List.take_of_length_le hle, List.append_assoc]

/-- The loop on the bytes of the stream; every round takes a byte or more. -/
def readAll : ℕ → σ → Bytes → Except CarrierError α
  | 0, _, _ => .error (.eof R.what)
  | rounds + 1, s, b =>
    match lines b with
    | [] => .error (.eof R.what)
    | l :: _ =>
      if ¬ Valid l then .error (.notUtf8 R.what)
      else match R.onLine s l with
        | .line s' => readAll rounds s' (b.drop l.length)
        | .literal lit =>
          let rest := b.drop l.length
          if rest.length < lit.size then
            .error (.short lit.what lit.detail (lit.size - rest.length))
          else match lit.go (rest.take lit.size) with
            | .inl s' => readAll rounds s' (rest.drop lit.size)
            | .inr r => r
        | .done r => r

/-- The loop returns what it returns on the bytes of the stream. -/
theorem returns_iff {src : Source} (hsrc : src.Flows) (s : σ) {n : ℕ} (hn : src.rest.length ≤ n)
    (r : Except CarrierError α) :
    Returns (step R) (.line s [], src) r ↔ r = readAll R n s src.rest := by
  induction n generalizing s src with
  | zero =>
    have hnil := List.eq_nil_of_length_eq_zero (Nat.le_zero.1 hn)
    have hb : src.fill.buffer = [] := by
      have := src.length_fill.1
      rw [hnil, Source.rest, List.append_eq_nil_iff] at this
      exact this.1
    rw [returns_step]
    simp [step, hb, cut, Outcome, readAll]
  | succ n ih =>
    cases hl : lines src.rest with
    | nil =>
      have hnil : src.rest = [] := by rw [← flatten_lines src.rest, hl, List.flatten_nil]
      have hb : src.fill.buffer = [] := by
        have := src.length_fill.1
        rw [hnil, Source.rest, List.append_eq_nil_iff] at this
        exact this.1
      rw [returns_step]
      simp [step, hb, cut, Outcome, readAll, hl]
    | cons l ls =>
      have hpos := List.length_pos_of_ne_nil (ne_nil_of_mem_lines (hl ▸ List.mem_cons_self))
      obtain ⟨src', hsrc', heq, hret⟩ := returns_line R s [] (by simp) hsrc hl
      rw [List.nil_append] at heq
      have hdrop : src.rest.drop l.length = src'.rest := by rw [heq, List.drop_left]
      have hlen := congrArg List.length heq
      rw [List.length_append] at hlen
      rw [hret r]
      simp only [readAll, hl, hdrop, Reader.finish]
      by_cases hv : Valid l
      · simp only [hv, not_true_eq_false, if_false]
        cases hon : R.onLine s l with
        | line s' => exact ih hsrc' s' (by omega)
        | literal lit =>
          have hlit := returns_literal R lit [] hsrc'
          simp only [List.length_nil, Nat.sub_zero, List.nil_append] at hlit
          show Returns (step R) (.literal lit [], src') r ↔ _
          by_cases hshort : src'.rest.length < lit.size
          · rw [if_pos hshort] at hlit
            rw [hlit r]
            simp [hshort]
          · rw [if_neg hshort] at hlit
            obtain ⟨src'', hsrc'', heq'', hret''⟩ := hlit
            rw [hret'' r]
            simp only [if_neg hshort]
            cases lit.go (src'.rest.take lit.size) with
            | inl s' =>
              have hlen' := congrArg List.length heq''
              rw [List.length_drop] at hlen'
              simp only [← heq'']
              exact ih hsrc'' s' (by omega)
            | inr r' => rfl
        | done r' => rfl
      · simp [hv, Outcome]

/-! ## What a reader comes to -/

theorem append_lf_inj {x y r r' : Bytes} (hx : LF ∉ x) (hy : LF ∉ y)
    (h : x ++ LF :: r = y ++ LF :: r') : x = y ∧ r = r' := by
  have hcut := cut_byte hx r
  rw [h, cut_byte hy] at hcut
  obtain ⟨hxy, hr⟩ := Prod.mk.inj (Option.some.inj hcut)
  exact ⟨hxy.symm, hr.symm⟩

/-- By whole lines and literals the reader comes from one point of the stream to another. -/
inductive Reaches : σ → Bytes → σ → Bytes → Prop
  | here (s : σ) (b : Bytes) : Reaches s b s b
  | line {s s' t : σ} {x r b : Bytes} (hx : LF ∉ x) (hv : Valid (x ++ [LF]))
      (hon : R.onLine s (x ++ [LF]) = .line s') (h : Reaches s' r t b) :
      Reaches s (x ++ LF :: r) t b
  | literal {s s' t : σ} {x r b : Bytes} {lit : Literal σ α} (hx : LF ∉ x)
      (hv : Valid (x ++ [LF])) (hon : R.onLine s (x ++ [LF]) = .literal lit)
      (hsize : lit.size ≤ r.length) (hgo : lit.go (r.take lit.size) = .inl s')
      (h : Reaches s' (r.drop lit.size) t b) : Reaches s (x ++ LF :: r) t b

/-- The reader comes to a line, whole or broken off by the end of the stream, that ends it so. -/
def Ends (s : σ) (b : Bytes) (r : Except CarrierError α) : Prop :=
  ∃ t y l, Reaches R s b t y ∧ (lines y).head? = some l ∧ Valid l ∧ R.onLine t l = .done r

/-- The reader comes to a whole line that ends it with success. -/
def Completes (s : σ) (b : Bytes) : Prop :=
  ∃ t x r, Reaches R s b t (x ++ LF :: r) ∧ LF ∉ x ∧ ∃ a, R.onLine t (x ++ [LF]) = .done (.ok a)

/-- The stream breaks off inside a line that as it stands ends the reader, with success. -/
def Breaks (s : σ) (b : Bytes) : Prop :=
  ∃ t x, Reaches R s b t x ∧ x ≠ [] ∧ LF ∉ x ∧ Valid x ∧ ∃ a, R.onLine t x = .done (.ok a)

/-- A literal never ends the reader. -/
def GoesOn : Prop := ∀ s l lit, R.onLine s l = .literal lit → ∀ b, ∃ s', lit.go b = .inl s'

/-- A round on a whole line. -/
theorem readAll_line {x : Bytes} (hx : LF ∉ x) (hv : Valid (x ++ [LF])) (n : ℕ) (s : σ)
    (r : Bytes) :
    readAll R (n + 1) s (x ++ LF :: r) =
      match R.onLine s (x ++ [LF]) with
      | .line s' => readAll R n s' r
      | .literal lit =>
        if r.length < lit.size then .error (.short lit.what lit.detail (lit.size - r.length))
        else match lit.go (r.take lit.size) with
          | .inl s' => readAll R n s' (r.drop lit.size)
          | .inr r => r
      | .done r => r := by
  have hdrop : (x ++ LF :: r).drop (x ++ [LF]).length = r := by simp
  simp only [readAll, lines_line hx, hv, not_true_eq_false, if_false, hdrop]

/-- The round on the line that the stream breaks off. -/
theorem readAll_last {x : Bytes} (hne : x ≠ []) (hx : LF ∉ x) (hv : Valid x) (n : ℕ) (s : σ) :
    readAll R (n + 1) s x =
      match R.onLine s x with
      | .line s' => readAll R n s' []
      | .literal lit =>
        if 0 < lit.size then .error (.short lit.what lit.detail lit.size)
        else match lit.go [] with
          | .inl s' => readAll R n s' []
          | .inr r => r
      | .done r => r := by
  have hdrop : x.drop x.length = [] := List.drop_length
  simp only [readAll, lines_last hne hx, hv, not_true_eq_false, if_false, hdrop, List.length_nil,
    Nat.sub_zero, List.take_nil, List.drop_nil]

theorem readAll_nil (n : ℕ) (s : σ) : readAll R n s [] = .error (.eof R.what) := by
  cases n <;> rfl

theorem readAll_of_reaches {s t : σ} {b b' : Bytes} (h : Reaches R s b t b') {n : ℕ}
    (hn : b.length ≤ n) : ∃ m, b'.length ≤ m ∧ readAll R n s b = readAll R m t b' := by
  induction h generalizing n with
  | here s b => exact ⟨n, hn, rfl⟩
  | line hx hv hon _ ih =>
    rw [List.length_append, List.length_cons] at hn
    obtain ⟨n, rfl⟩ := Nat.exists_eq_succ_of_ne_zero (show n ≠ 0 by omega)
    obtain ⟨m, hm, heq⟩ := ih (show _ ≤ n by omega)
    refine ⟨m, hm, ?_⟩
    rw [readAll_line R hx hv, hon]
    exact heq
  | @literal s s' t x r b lit hx hv hon hsize hgo _ ih =>
    rw [List.length_append, List.length_cons] at hn
    obtain ⟨n, rfl⟩ := Nat.exists_eq_succ_of_ne_zero (show n ≠ 0 by omega)
    obtain ⟨m, hm, heq⟩ := ih (show (r.drop lit.size).length ≤ n by
      rw [List.length_drop]
      omega)
    refine ⟨m, hm, ?_⟩
    rw [readAll_line R hx hv, hon]
    simp only [if_neg (Nat.not_lt.2 hsize), hgo]
    exact heq

/-- A round on the line that the stream goes on with. -/
theorem readAll_done {t : σ} {y l : Bytes} {r : Except CarrierError α} (hl : (lines y).head? = some l)
    (hv : Valid l) (hon : R.onLine t l = .done r) (m : ℕ) : readAll R (m + 1) t y = r := by
  obtain ⟨ls, hls⟩ := List.head?_eq_some_iff.1 hl
  simp only [readAll, hls, hv, not_true_eq_false, if_false, hon]

theorem readAll_of_ends {s : σ} {b : Bytes} {r : Except CarrierError α} (h : Ends R s b r) {n : ℕ}
    (hn : b.length ≤ n) : readAll R n s b = r := by
  obtain ⟨t, y, l, hreach, hl, hv, hon⟩ := h
  obtain ⟨m, hm, heq⟩ := readAll_of_reaches R hreach hn
  have hne : y ≠ [] := by
    rintro rfl
    cases hl
  have hpos := List.length_pos_of_ne_nil hne
  obtain ⟨m, rfl⟩ := Nat.exists_eq_succ_of_ne_zero (show m ≠ 0 by omega)
  rw [heq]
  exact readAll_done R hl hv hon m

/-- A reader that succeeds, or panics, has come to a line that ends it so. -/
theorem ends_of_readAll (hgo : GoesOn R) {s : σ} {b : Bytes} {n : ℕ} {r : Except CarrierError α}
    (hr : (∃ a, r = .ok a) ∨ r = .error .panic) (h : readAll R n s b = r) : Ends R s b r := by
  have hne : ∀ {e}, r = .error e → e ≠ .panic → False := by
    rintro e rfl he
    rcases hr with ⟨a, ha⟩ | hp
    · cases ha
    · exact he (Except.error.inj hp)
  induction n generalizing s b with
  | zero => exact (hne h.symm (by simp)).elim
  | succ n ih =>
    rcases eq_or_ne b [] with rfl | hb
    · rw [readAll_nil] at h
      exact (hne h.symm (by simp)).elim
    by_cases hlf : LF ∈ b
    · obtain ⟨x, w, rfl, hx⟩ := List.eq_append_cons_of_mem hlf
      by_cases hv : Valid (x ++ [LF])
      · rw [readAll_line R hx hv] at h
        cases hon : R.onLine s (x ++ [LF]) with
        | line s' =>
          rw [hon] at h
          obtain ⟨t, y, l, hreach, hrest⟩ := ih h
          exact ⟨t, y, l, .line hx hv hon hreach, hrest⟩
        | literal lit =>
          rw [hon] at h
          obtain ⟨s', hs'⟩ := hgo s _ lit hon (w.take lit.size)
          simp only [hs'] at h
          split at h
          · exact (hne h.symm (by simp)).elim
          next hsize =>
            obtain ⟨t, y, l, hreach, hrest⟩ := ih h
            exact ⟨t, y, l, .literal hx hv hon (Nat.le_of_not_lt hsize) hs' hreach, hrest⟩
        | done res =>
          rw [hon] at h
          subst h
          exact ⟨s, _, _, .here _ _, by rw [lines_line hx]; rfl, hv, hon⟩
      · simp only [readAll, lines_line hx, hv, not_false_eq_true, if_true] at h
        exact (hne h.symm (by simp)).elim
    · by_cases hv : Valid b
      · rw [readAll_last R hb hlf hv] at h
        cases hon : R.onLine s b with
        | line s' =>
          simp only [hon, readAll_nil] at h
          exact (hne h.symm (by simp)).elim
        | literal lit =>
          rw [hon] at h
          obtain ⟨s', hs'⟩ := hgo s _ lit hon []
          simp only [hs', readAll_nil] at h
          split at h <;> exact (hne h.symm (by simp)).elim
        | done res =>
          rw [hon] at h
          subst h
          exact ⟨s, b, b, .here _ _, by rw [lines_last hb hlf]; rfl, hv, hon⟩
      · simp only [readAll, lines_last hb hlf, hv, not_false_eq_true, if_true] at h
        exact (hne h.symm (by simp)).elim

/-- The line that ends a reader with success is a whole one, or one that breaks off. -/
theorem completes_of_ends {s : σ} {b : Bytes} :
    (∃ a, Ends R s b (.ok a)) → Completes R s b ∨ Breaks R s b := by
  rintro ⟨a, t, y, l, hreach, hl, hv, hon⟩
  cases y using lines_induction with
  | nil => cases hl
  | last _ hne hx =>
    rw [lines_last hne hx] at hl
    have hyl := Option.some.inj hl
    exact Or.inr ⟨t, y, hreach, hne, hx, hyl ▸ hv, a, hyl ▸ hon⟩
  | line x w hx =>
    rw [lines_line hx] at hl
    have hxl := Option.some.inj hl
    exact Or.inl ⟨t, x, w, hreach, hx, a, hxl ▸ hon⟩

theorem Breaks.ends {s : σ} {b : Bytes} (h : Breaks R s b) : ∃ a, Ends R s b (.ok a) := by
  obtain ⟨t, x, hreach, hne, hx, hv, a, hon⟩ := h
  exact ⟨a, t, x, x, hreach, by rw [lines_last hne hx]; rfl, hv, hon⟩

/-- If `Done` is what the reader waits for, the reader returns, and fails at the streams that end
before it, unless they break off inside a line that completes the reader, or come to one at which it
panics. -/
theorem err_iff {Done : Bytes → Prop} (hgo : GoesOn R) {s : σ} {b : Bytes}
    (hdone : Completes R s b → Done b) (hbreaks : Breaks R s b → ¬ Done b) {n : ℕ}
    (hn : b.length ≤ n) :
    (readAll R n s b ≠ .error .panic ∧ (Done b ∨ ∃ e, readAll R n s b = .error e)) ↔
      ¬ Breaks R s b ∧ ¬ Ends R s b (.error .panic) := by
  constructor
  · rintro ⟨hpanic, h⟩
    refine ⟨fun hb => ?_, fun he => hpanic (readAll_of_ends R he hn)⟩
    obtain ⟨a, ha⟩ := hb.ends
    rcases h with h | ⟨e, he⟩
    · exact hbreaks hb h
    · rw [readAll_of_ends R ha hn] at he
      cases he
  · rintro ⟨hb, hpanic⟩
    refine ⟨fun h => hpanic (ends_of_readAll R hgo (Or.inr rfl) h), ?_⟩
    cases hr : readAll R n s b with
    | error e => exact Or.inr ⟨e, rfl⟩
    | ok a =>
      have hends := ends_of_readAll R hgo (Or.inl ⟨a, rfl⟩) hr
      exact Or.inl (hdone ((completes_of_ends R ⟨a, hends⟩).resolve_right hb))

/-! ### Readers that wait for a line -/

/-- The stream holds a whole line with the property. -/
def Whole (p : Bytes → Prop) (b : Bytes) : Prop := ∃ l ∈ lines b, [LF] <:+ l ∧ p l

/-- The reader ends with the lines that have the property, and neither reads literals nor panics. -/
structure Awaits (p : Bytes → Prop) : Prop where
  done : ∀ s l, (∃ res, R.onLine s l = .done res) ↔ p l
  no_literal : ∀ s l lit, R.onLine s l ≠ .literal lit
  no_panic : ∀ s l, R.onLine s l ≠ .done (.error .panic)

variable {R} {p : Bytes → Prop}

theorem whole_line {x : Bytes} (hx : LF ∉ x) (r : Bytes) :
    Whole p (x ++ LF :: r) ↔ p (x ++ [LF]) ∨ Whole p r := by
  unfold Whole
  rw [lines_line hx]
  simp

theorem not_whole_last {x : Bytes} (hx : LF ∉ x) : ¬ Whole p x := by
  rintro ⟨l, hl, ⟨y, rfl⟩, -⟩
  rcases eq_or_ne x [] with rfl | hne
  · cases hl
  · rw [lines_last hne hx, List.mem_singleton] at hl
    simp [← hl] at hx

/-- The lines that the reader has passed do not have the property. -/
theorem Awaits.whole_iff (hR : Awaits R p) {s t : σ} {b b' : Bytes} (h : Reaches R s b t b') :
    Whole p b ↔ Whole p b' := by
  induction h with
  | here s b => rfl
  | @line s s' t x r b hx hv hon h ih =>
    have hp : ¬ p (x ++ [LF]) := by
      rw [← hR.done s]
      simp [hon]
    rw [whole_line hx, or_iff_right hp, ih]
  | literal hx hv hon => exact absurd hon (hR.no_literal _ _ _)

theorem Awaits.err_iff (hR : Awaits R p) (s : σ) {b : Bytes} {n : ℕ} (hn : b.length ≤ n) :
    (readAll R n s b ≠ .error .panic ∧ (Whole p b ∨ ∃ e, readAll R n s b = .error e)) ↔
      ¬ Breaks R s b := by
  have hpanic : ¬ Ends R s b (.error .panic) := by
    rintro ⟨t, y, l, -, -, -, hon⟩
    exact hR.no_panic t l hon
  rw [ReadLoops.err_iff R (fun _ _ _ h => absurd h (hR.no_literal _ _ _)) ?_ ?_ hn,
    and_iff_left hpanic]
  · rintro ⟨t, x, r, hreach, hx, a, hon⟩
    exact (hR.whole_iff hreach).2 ((whole_line hx r).2 (Or.inl ((hR.done t _).1 ⟨_, hon⟩)))
  · rintro ⟨t, x, hreach, -, hx, -⟩ hwhole
    exact not_whole_last hx ((hR.whole_iff hreach).1 hwhole)

/-! ## The readers of the carriers -/

/-- The loop of `imap_command`, with the lines read so far. -/
def imapReader (tag : Bytes) : Reader (List Bytes) (List Bytes) where
  what := ascii "IMAP"
  onLine ls l :=
    if tag ++ [32] <+: trim l then
      .done (if ascii "OK" <+: (trim l).drop (tag.length + 1) then .ok (ls ++ [trim l])
        else .error (.refused (trim l)))
    else .line (ls ++ [trim l])

/-- The loop of `fetch_message`, with the data collected so far.  A line that announces more than
`room` bytes is as far as it comes. -/
def fetchReader (room : ℕ) (tag uid : Bytes) : Reader Bytes Bytes where
  what := ascii "IMAP FETCH uid=" ++ uid
  onLine data l :=
    if tag <+: trim l then .done (.ok data)
    else match Imap.announced l with
      | none => .line data
      | some size =>
        if room < size then .done (.error .panic)
        else .literal ⟨ascii "IMAP FETCH", ascii "uid=" ++ uid, size, fun lit => .inl (data ++ lit)⟩

/-- The loop of `read_multiline`, with the data collected so far. -/
def multilineReader (which : Bytes) : Reader Bytes Bytes where
  what := ascii "POP3 RETR " ++ which
  onLine data l := if Pop3.isDot l then .done (.ok data) else .line (data ++ Pop3.unstuff l)

/-- The loop `read_reply` of `SmtpCarrier::send`: the line is final unless its fourth byte is a
hyphen. -/
def replyReader : Reader Unit Unit where
  what := ascii "SMTP"
  onLine _ l :=
    if l[3]? = some 45 then .line ()
    else if l.head? = some 50 ∨ l.head? = some 51 then .done (.ok ())
    else .done (.error (.refused (trim l)))

/-- `read_exact` by itself; no line is read. -/
def exactReader : Reader Unit Bytes := ⟨[], fun _ _ => .line ()⟩

def exactly (what detail : Bytes) (size : ℕ) : Pc Unit Bytes :=
  .literal ⟨what, detail, size, fun b => .inr (.ok b)⟩ []

/-- The tag and all announced literal bytes have come. -/
inductive Fetched (tag : Bytes) : Bytes → Prop
  | tag {x : Bytes} (r : Bytes) (hx : LF ∉ x) (htag : tag <+: trim (x ++ [LF])) :
      Fetched tag (x ++ LF :: r)
  | line {x r : Bytes} (hx : LF ∉ x) (hnone : Imap.announced (x ++ [LF]) = none)
      (h : Fetched tag r) : Fetched tag (x ++ LF :: r)
  | literal {x r : Bytes} {n : ℕ} (hx : LF ∉ x) (hsome : Imap.announced (x ++ [LF]) = some n)
      (hn : n ≤ r.length) (h : Fetched tag (r.drop n)) : Fetched tag (x ++ LF :: r)

theorem imapReader_awaits (tag : Bytes) :
    Awaits (imapReader tag) fun l => tag ++ [32] <+: trim l where
  done s l := by
    unfold imapReader
    dsimp only
    split <;> simp_all
  no_literal s l lit := by
    unfold imapReader
    dsimp only
    split <;> simp
  no_panic s l := by
    unfold imapReader
    dsimp only
    split
    · split <;> simp
    · simp

theorem multilineReader_awaits (which : Bytes) :
    Awaits (multilineReader which) fun l => Pop3.isDot l where
  done s l := by
    unfold multilineReader
    dsimp only
    split <;> simp_all
  no_literal s l lit := by
    unfold multilineReader
    dsimp only
    split <;> simp
  no_panic s l := by
    unfold multilineReader
    dsimp only
    split <;> simp

theorem replyReader_awaits : Awaits replyReader fun l => l[3]? ≠ some 45 where
  done s l := by
    unfold replyReader
    dsimp only
    split
    · simp_all
    · split <;> simp_all
  no_literal s l lit := by
    unfold replyReader
    dsimp only
    split
    · simp
    · split <;> simp
  no_panic s l := by
    unfold replyReader
    dsimp only
    split
    · simp
    · split <;> simp

/-- The loop of `fetch_message` comes to a line that announces a literal of more than `room`
bytes. -/
def Exceeds (room : ℕ) (tag uid data b : Bytes) : Prop :=
  ∃ t y l size, Reaches (fetchReader room tag uid) data b t y ∧ (lines y).head? = some l ∧ Valid l ∧
    ¬ tag <+: trim l ∧ Imap.announced l = some size ∧ room < size

theorem fetchReader_goesOn (room : ℕ) (tag uid : Bytes) : GoesOn (fetchReader room tag uid) := by
  intro data l lit h b
  simp only [fetchReader] at h
  split at h
  · cases h
  · split at h
    · cases h
    · split at h
      · cases h
      · obtain rfl := Next.literal.inj h
        exact ⟨_, rfl⟩

theorem exceeds_iff {room : ℕ} {tag uid data b : Bytes} :
    Ends (fetchReader room tag uid) data b (.error .panic) ↔ Exceeds room tag uid data b := by
  constructor
  · rintro ⟨t, y, l, hreach, hl, hv, hon⟩
    simp only [fetchReader] at hon
    split at hon
    · cases hon
    next htag =>
      split at hon
      · cases hon
      next size hsome =>
        split at hon
        next hroom => exact ⟨t, y, l, size, hreach, hl, hv, htag, hsome, hroom⟩
        · cases hon
  · rintro ⟨t, y, l, size, hreach, hl, hv, htag, hsome, hroom⟩
    exact ⟨t, y, l, hreach, hl, hv, by simp only [fetchReader, htag, if_false, hsome, hroom, if_true]⟩

theorem fetched_line {tag x : Bytes} (hx : LF ∉ x) (r : Bytes) :
    Fetched tag (x ++ LF :: r) ↔ tag <+: trim (x ++ [LF]) ∨
      (Imap.announced (x ++ [LF]) = none ∧ Fetched tag r) ∨
      ∃ n, Imap.announced (x ++ [LF]) = some n ∧ n ≤ r.length ∧ Fetched tag (r.drop n) := by
  constructor
  · intro h
    generalize hb : x ++ LF :: r = b at h
    cases h with
    | tag r' hy htag =>
      obtain ⟨rfl, rfl⟩ := append_lf_inj hx hy hb
      exact Or.inl htag
    | line hy hnone h =>
      obtain ⟨rfl, rfl⟩ := append_lf_inj hx hy hb
      exact Or.inr (Or.inl ⟨hnone, h⟩)
    | literal hy hsome hn h =>
      obtain ⟨rfl, rfl⟩ := append_lf_inj hx hy hb
      exact Or.inr (Or.inr ⟨_, hsome, hn, h⟩)
  · rintro (htag | ⟨hnone, h⟩ | ⟨n, hsome, hn, h⟩)
    · exact .tag r hx htag
    · exact .line hx hnone h
    · exact .literal hx hsome hn h

theorem fetched_iff {room : ℕ} {tag uid s t b b' : Bytes}
    (h : Reaches (fetchReader room tag uid) s b t b') : Fetched tag b ↔ Fetched tag b' := by
  induction h with
  | here s b => rfl
  | @line s s' t x r b hx hv hon h ih =>
    simp only [fetchReader] at hon
    split at hon
    · cases hon
    next htag =>
      split at hon
      next hnone => rw [fetched_line hx, ← ih]; simp [htag, hnone]
      · split at hon <;> cases hon
  | @literal s s' t x r b lit hx hv hon hsize hgo h ih =>
    simp only [fetchReader] at hon
    split at hon
    · cases hon
    next htag =>
      split at hon
      · cases hon
      next size hsome =>
        split at hon
        · cases hon
        · obtain rfl := Next.literal.inj hon
          rw [fetched_line hx, ← ih]
          simp [htag, hsome, hsize]

theorem fetchReader_err_iff (room : ℕ) (tag uid : Bytes) (data : Bytes) {b : Bytes} {n : ℕ}
    (hn : b.length ≤ n) :
    (readAll (fetchReader room tag uid) n data b ≠ .error .panic ∧
        (Fetched tag b ∨ ∃ e, readAll (fetchReader room tag uid) n data b = .error e)) ↔
      ¬ Breaks (fetchReader room tag uid) data b ∧ ¬ Exceeds room tag uid data b := by
  rw [← exceeds_iff]
  refine err_iff _ (fetchReader_goesOn room tag uid) ?_ ?_ hn
  · rintro ⟨t, x, r, hreach, hx, a, hon⟩
    refine (fetched_iff hreach).2 (.tag r hx ?_)
    simp only [fetchReader] at hon
    split at hon
    next htag => exact htag
    · split at hon
      · cases hon
      · split at hon <;> cases hon
  · rintro ⟨t, x, hreach, -, hx, -⟩ hfetched
    have h := (fetched_iff hreach).1 hfetched
    cases h <;> simp at hx

/-! ### The loops on whole replies -/

theorem map_append_map {ε β : Type} (x : Except ε (List β)) (u v : List β) :
    (x.map (v ++ ·)).map (u ++ ·) = x.map (u ++ v ++ ·) := by
  cases x <;> simp [Except.map]

theorem lines_drop {b l : Bytes} {ls : List Bytes} (h : lines b = l :: ls) :
    lines (b.drop l.length) = ls := by
  induction b using lines_induction with
  | nil => cases h
  | last x hne hx =>
    rw [lines_last hne hx] at h
    obtain ⟨rfl, rfl⟩ := List.cons.inj h
    rw [List.drop_length, lines_nil]
  | line x r hx =>
    rw [lines_line hx] at h
    obtain ⟨rfl, rfl⟩ := List.cons.inj h
    rw [show (x ++ LF :: r).drop (x ++ [LF]).length = r by simp]

theorem length_drop_lt {b l : Bytes} {ls : List Bytes} {n : ℕ} (h : lines b = l :: ls)
    (hn : b.length ≤ n + 1) : (b.drop l.length).length ≤ n := by
  have hpos := List.length_pos_of_ne_nil (ne_nil_of_mem_lines (h ▸ List.mem_cons_self))
  rw [List.length_drop]
  omega

theorem readAll_imap (tag : Bytes) (ls : List Bytes) {n : ℕ} {b : Bytes} (hn : b.length ≤ n) :
    readAll (imapReader tag) n ls b = (Imap.imapCommand tag b).map (ls ++ ·) := by
  unfold Imap.imapCommand
  induction n generalizing ls b with
  | zero =>
    obtain rfl := List.eq_nil_of_length_eq_zero (Nat.le_zero.1 hn)
    rfl
  | succ n ih =>
    simp only [readAll]
    cases hl : lines b with
    | nil => rfl
    | cons l rest =>
      have hih := ih (ls ++ [trim l]) (length_drop_lt hl hn)
      rw [lines_drop hl] at hih
      simp only [Imap.commandLoop]
      by_cases hv : Valid l
      · simp only [hv, not_true_eq_false, if_false, imapReader]
        by_cases htag : tag ++ [32] <+: trim l
        · simp only [htag, if_true]
          split <;> rfl
        · simp only [htag, if_false]
          refine hih.trans ?_
          cases Imap.commandLoop tag rest <;> simp [Except.map]
      · simp only [hv, not_false_eq_true, if_true]
        rfl

theorem readAll_fetch (room : ℕ) (tag uid data : Bytes) {n : ℕ} {b : Bytes} :
    readAll (fetchReader room tag uid) n data b = (Imap.fetchLoop room tag uid n b).map (data ++ ·) := by
  induction n generalizing data b with
  | zero => rfl
  | succ n ih =>
    simp only [readAll, Imap.fetchLoop]
    cases hl : lines b with
    | nil => rfl
    | cons l rest =>
      by_cases hv : Valid l
      · simp only [hv, not_true_eq_false, if_false, fetchReader]
        by_cases htag : tag <+: trim l
        · simp [htag, Except.map]
        · simp only [htag, if_false]
          cases Imap.announced l with
          | none => exact ih data
          | some size =>
            by_cases hroom : room < size
            · simp [hroom, Except.map]
            · simp only [hroom, if_false]
              split
              · rfl
              · rw [map_append_map]
                exact ih _
      · simp only [hv, not_false_eq_true, if_true]
        rfl

theorem readAll_multiline (which data : Bytes) {n : ℕ} {b : Bytes} (hn : b.length ≤ n) :
    readAll (multilineReader which) n data b =
      (Pop3.multiline (ascii "POP3 RETR " ++ which) (lines b)).map (data ++ ·.1) := by
  induction n generalizing data b with
  | zero =>
    obtain rfl := List.eq_nil_of_length_eq_zero (Nat.le_zero.1 hn)
    rfl
  | succ n ih =>
    simp only [readAll]
    cases hl : lines b with
    | nil => rfl
    | cons l rest =>
      have hih := ih (data ++ Pop3.unstuff l) (length_drop_lt hl hn)
      rw [lines_drop hl] at hih
      simp only [Pop3.multiline]
      by_cases hv : Valid l
      · simp only [hv, not_true_eq_false, if_false, multilineReader]
        by_cases hdot : Pop3.isDot l
        · simp [hdot, Except.map]
        · simp only [hdot, Bool.false_eq_true, if_false]
          refine hih.trans ?_
          cases Pop3.multiline (ascii "POP3 RETR " ++ which) rest <;> simp [Except.map]
      · simp only [hv, not_false_eq_true, if_true]
        rfl

/-- In any chunks the loops return what the model of their carrier says of the whole reply. -/
theorem readLoops_whole {cs : List Bytes} (hcs : ∀ c ∈ cs, c ≠ []) :
    (∀ tag r, Returns (step (imapReader tag)) (.line [] [], ⟨[], cs⟩) r ↔
      r = Imap.imapCommand tag cs.flatten) ∧
    (∀ room tag uid r, Returns (step (fetchReader room tag uid)) (.line [] [], ⟨[], cs⟩) r ↔
      r = Imap.fetchMessage room tag uid cs.flatten) ∧
    ∀ which r, Returns (step (multilineReader which)) (.line [] [], ⟨[], cs⟩) r ↔
      r = (Pop3.readMultiline which cs).map (·.1) := by
  have hflows : Source.Flows ⟨[], cs⟩ := hcs
  have hid : ∀ {ε β : Type} (x : Except ε (List β)), x.map ([] ++ ·) = x := by
    rintro ε β (_ | _) <;> rfl
  have hrest : Source.rest ⟨[], cs⟩ = cs.flatten := rfl
  refine ⟨fun tag r => ?_, fun room tag uid r => ?_, fun which r => ?_⟩
  · rw [returns_iff _ hflows [] (le_refl cs.flatten.length), hrest, readAll_imap tag [] le_rfl, hid]
  · rw [returns_iff _ hflows [] (le_refl cs.flatten.length), hrest, readAll_fetch, hid]
    rfl
  · rw [returns_iff _ hflows [] (le_refl cs.flatten.length), hrest,
      readAll_multiline which [] le_rfl, Pop3.readMultiline]
    show r = (Pop3.multiline _ (lines cs.flatten)).map _ ↔ _
    cases Pop3.multiline (ascii "POP3 RETR " ++ which) (lines cs.flatten) <;> rfl

/-! ## No read loop can spin -/

/-- The loop returns, and with an error if what it waits for does not come before the end of the
stream. -/
def Errs (R : Reader σ α) (pc : Pc σ α) (cs : List Bytes) (done : Prop) : Prop :=
  ∃ r, Returns (step R) (pc, ⟨[], cs⟩) r ∧ r ≠ .error .panic ∧ (done ∨ ∃ e, r = .error e)

theorem errs_line_iff {R : Reader σ α} {s : σ} {cs : List Bytes} {done : Prop}
    (hcs : ∀ c ∈ cs, c ≠ []) :
    Errs R (.line s []) cs done ↔ readAll R cs.flatten.length s cs.flatten ≠ .error .panic ∧
      (done ∨ ∃ e, readAll R cs.flatten.length s cs.flatten = .error e) := by
  have hflows : Source.Flows ⟨[], cs⟩ := hcs
  have hret := returns_iff R hflows s (le_refl cs.flatten.length)
  show (∃ r, _ ∧ _) ↔ _
  simp only [hret]
  simp [Source.rest]

theorem exactly_errs (what detail : Bytes) (size : ℕ) {cs : List Bytes} (hcs : ∀ c ∈ cs, c ≠ []) :
    Errs exactReader (exactly what detail size) cs (size ≤ cs.flatten.length) := by
  have hflows : Source.Flows ⟨[], cs⟩ := hcs
  have hrest : Source.rest ⟨[], cs⟩ = cs.flatten := rfl
  have hlit := returns_literal exactReader ⟨what, detail, size, fun b => .inr (.ok b)⟩ [] hflows
  rw [hrest, List.length_nil, Nat.sub_zero] at hlit
  by_cases hsize : size ≤ cs.flatten.length
  · rw [if_neg (Nat.not_lt.2 hsize)] at hlit
    obtain ⟨src', -, -, hret⟩ := hlit
    exact ⟨_, (hret _).2 rfl, by simp, Or.inl hsize⟩
  · rw [if_pos (Nat.lt_of_not_le hsize)] at hlit
    exact ⟨_, (hlit _).2 rfl, by simp, Or.inr ⟨_, rfl⟩⟩

/-- On every stream and in any chunks the read loops end, with what the models of their carriers
give.  `read_exact` fails at the end of the stream; the others fail there before the tagged line, the
tag and the announced literal bytes, the lone dot or the final line of a reply, exactly if the stream
does not break off inside a line that as it stands completes the reader, and for `fetch_message` does
not announce a literal that there is no buffer for. -/
theorem readLoops_err_iff {cs : List Bytes} (hcs : ∀ c ∈ cs, c ≠ []) :
    (∀ (σ α : Type) (R : Reader σ α) (pc : Pc σ α), ∃ r, Returns (step R) (pc, ⟨[], cs⟩) r) ∧
    ((∀ tag r, Returns (step (imapReader tag)) (.line [] [], ⟨[], cs⟩) r ↔
        r = Imap.imapCommand tag cs.flatten) ∧
      (∀ room tag uid r, Returns (step (fetchReader room tag uid)) (.line [] [], ⟨[], cs⟩) r ↔
        r = Imap.fetchMessage room tag uid cs.flatten) ∧
      ∀ which r, Returns (step (multilineReader which)) (.line [] [], ⟨[], cs⟩) r ↔
        r = (Pop3.readMultiline which cs).map (·.1)) ∧
    (∀ tag, Errs (imapReader tag) (.line [] []) cs
        (Whole (fun l => tag ++ [32] <+: trim l) cs.flatten) ↔
      ¬ Breaks (imapReader tag) [] cs.flatten) ∧
    (∀ room tag uid, Errs (fetchReader room tag uid) (.line [] []) cs (Fetched tag cs.flatten) ↔
      ¬ Breaks (fetchReader room tag uid) [] cs.flatten ∧ ¬ Exceeds room tag uid [] cs.flatten) ∧
    (∀ which, Errs (multilineReader which) (.line [] []) cs
        (Whole (fun l => Pop3.isDot l) cs.flatten) ↔
      ¬ Breaks (multilineReader which) [] cs.flatten) ∧
    (Errs replyReader (.line () []) cs (Whole (fun l => l[3]? ≠ some 45) cs.flatten) ↔
      ¬ Breaks replyReader () cs.flatten) ∧
    (∀ what detail size,
      Errs exactReader (exactly what detail size) cs (size ≤ cs.flatten.length)) :=
  ⟨fun _ _ R pc => reader_returns R pc _, readLoops_whole hcs,
    fun tag => (errs_line_iff hcs).trans ((imapReader_awaits tag).err_iff [] le_rfl),
    fun room tag uid => (errs_line_iff hcs).trans (fetchReader_err_iff room tag uid [] le_rfl),
    fun which => (errs_line_iff hcs).trans ((multilineReader_awaits which).err_iff [] le_rfl),
    (errs_line_iff hcs).trans (replyReader_awaits.err_iff () le_rfl),
    fun what detail size => exactly_errs what detail size hcs⟩

theorem readLoops_err_iff_reply :
    Errs replyReader (.line () []) [ascii "220-a\r\n22", ascii "0 b\r\n"]
        (Whole (fun l => l[3]? ≠ some 45) (ascii "220-a\r\n220 b\r\n")) ↔
      ¬ Breaks replyReader () (ascii "220-a\r\n220 b\r\n") :=
  have hcs : ∀ c ∈ [ascii "220-a\r\n22", ascii "0 b\r\n"], c ≠ [] := by decide
  (readLoops_err_iff hcs).2.2.2.2.2.1

/-- A reply that breaks off is taken for a final one, the first dot of a stuffed line for the lone
dot, and a tag for its line; and the announcement of 2^63 bytes is answered by a panic. -/
theorem readLoops_break_off :
    (Returns (step replyReader) (.line () [], ⟨[], [ascii "25"]⟩) (.ok ()) ∧
      ¬ Whole (fun l => l[3]? ≠ some 45) (ascii "25")) ∧
    (Returns (step (multilineReader (ascii "msg=1"))) (.line [] [], ⟨[], [ascii "hi\r\n."]⟩)
        (.ok (ascii "hi\r\n")) ∧
      ¬ Whole (fun l => Pop3.isDot l) (ascii "hi\r\n.")) ∧
    (Returns (step (imapReader (ascii "A1"))) (.line [] [], ⟨[], [ascii "A1 OK"]⟩)
        (.ok [ascii "A1 OK"]) ∧
      ¬ Whole (fun l => ascii "A1" ++ [32] <+: trim l) (ascii "A1 OK")) ∧
    (Returns (step (fetchReader (2 ^ 63 - 1) (ascii "A1") (ascii "7")))
        (.line [] [], ⟨[], [ascii "A1"]⟩) (.ok []) ∧
      ¬ Fetched (ascii "A1") (ascii "A1")) ∧
    Returns (step (fetchReader (2 ^ 63 - 1) (ascii "A1") (ascii "7")))
      (.line [] [], ⟨[], [ascii "\x7b9223372036854775808\x7d\r\n"]⟩) (.error .panic) := by
  refine ⟨⟨⟨2, by decide +kernel⟩, not_whole_last (by decide)⟩, ⟨⟨3, by decide +kernel⟩, ?_⟩,
    ⟨⟨2, by decide +kernel⟩, not_whole_last (by decide)⟩, ⟨⟨2, by decide +kernel⟩, ?_⟩,
    ⟨1, by decide +kernel⟩⟩
  · have hsplit : ascii "hi\r\n." = ascii "hi\r" ++ LF :: [46] := by decide
    rw [hsplit, whole_line (by decide)]
    exact not_or.2 ⟨by decide +kernel, not_whole_last (by decide)⟩
  · generalize hb : ascii "A1" = b
    have hlf : LF ∉ b := hb ▸ by decide
    intro h
    cases h <;> simp at hlf

end Antie.ReadLoops
