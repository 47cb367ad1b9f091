import AxiomCarriers.Lib.Bytes

/-!
# UTF-8 and its lossy decoding

`feed` is the decoder of UTF-8, one byte at a time: it gives the state after a byte, or `none` when
no UTF-8 text has that byte there.  `Valid` says that a byte string is UTF-8.  `lossy` is the
conversion that keeps every character and puts U+FFFD in place of every maximal broken piece.

`lossy` is the identity exactly on UTF-8 (`lossy_eq_self_iff`), and it never looks across an ASCII
byte (`lossy_append_ascii`), so it commutes with every cut at an ASCII byte.
-/

namespace Utf8

/-- What the decoder waits for. -/
inductive State where
  /-- The first byte of a character. -/
  | start
  /-- `n + 1` continuation bytes. -/
  | tails (n : ℕ)
  | afterE0
  | afterED
  | afterF0
  | afterF4
  deriving DecidableEq

/-- The state in which `n` continuation bytes are owed. -/
def owe : ℕ → State
  | 0 => .start
  | n + 1 => .tails n

/-- The state after the first byte of a character. -/
def lead (b : UInt8) : Option State :=
  if b < 0x80 then some .start
  else if 0xC2 ≤ b ∧ b ≤ 0xDF then some (owe 1)
  else if b = 0xE0 then some .afterE0
  else if b = 0xED then some .afterED
  else if 0xE1 ≤ b ∧ b ≤ 0xEF then some (owe 2)
  else if b = 0xF0 then some .afterF0
  else if 0xF1 ≤ b ∧ b ≤ 0xF3 then some (owe 3)
  else if b = 0xF4 then some .afterF4
  else none

/-- `s` when `b` lies in the range, and a refusal otherwise. -/
def within (lo hi b : UInt8) (s : State) : Option State :=
  if lo ≤ b ∧ b ≤ hi then some s else none

/-- The state after one more byte, `none` when UTF-8 does not allow it. -/
def feed : State → UInt8 → Option State
  | .start, b => lead b
  | .tails n, b => within 0x80 0xBF b (owe n)
  | .afterE0, b => within 0xA0 0xBF b (owe 1)
  | .afterED, b => within 0x80 0x9F b (owe 1)
  | .afterF0, b => within 0x90 0xBF b (owe 2)
  | .afterF4, b => within 0x80 0x8F b (owe 2)

def feeds : State → Bytes → Option State
  | s, [] => some s
  | s, b :: bs => (feed s b).bind fun s' => feeds s' bs

def Valid (bs : Bytes) : Prop := feeds .start bs = some .start

instance (bs : Bytes) : Decidable (Valid bs) := inferInstanceAs (Decidable (_ = _))

/-- U+FFFD in UTF-8. -/
def replacement : Bytes := [0xEF, 0xBF, 0xBD]

/-- What is written, and what is held back, when a character starts at `b`. -/
def enter (b : UInt8) : Bytes × State × Bytes :=
  match feed .start b with
  | some .start => ([b], .start, [])
  | some s => ([], s, [b])
  | none => (replacement, .start, [])

/-- One byte of the lossy conversion, in the state `s` with the bytes `held` of an unfinished
character: what is written, the next state and what is held back then. -/
def lossyStep (s : State) (held : Bytes) (b : UInt8) : Bytes × State × Bytes :=
  match s, feed s b with
  | .start, _ => enter b
  | _, some .start => (held ++ [b], .start, [])
  | _, some s' => ([], s', held ++ [b])
  | _, none => (replacement ++ (enter b).1, (enter b).2)

/-- The lossy conversion from the state `s` on, with the bytes `held` of an unfinished
character. -/
def lossyFrom (s : State) (held : Bytes) : Bytes → Bytes
  | [] => if s = .start then [] else replacement
  | b :: bs =>
    (lossyStep s held b).1 ++ lossyFrom (lossyStep s held b).2.1 (lossyStep s held b).2.2 bs

/-- The UTF-8 text of a byte string, with U+FFFD for every broken piece. -/
def lossy (bs : Bytes) : Bytes := lossyFrom .start [] bs

@[simp] theorem lossy_nil : lossy [] = [] := rfl

theorem lossyFrom_nil (s : State) (held : Bytes) :
    lossyFrom s held [] = if s = .start then [] else replacement := rfl

theorem lossyFrom_cons (s : State) (held : Bytes) (b : UInt8) (bs : Bytes) :
    lossyFrom s held (b :: bs) = (lossyStep s held b).1 ++
      lossyFrom (lossyStep s held b).2.1 (lossyStep s held b).2.2 bs := rfl

/-! ## Single bytes -/

theorem feed_start_ascii {b : UInt8} (hb : b < 128) : feed .start b = some .start := by
  simp [feed, lead, hb]

theorem within_ascii {lo hi b : UInt8} (hlo : 128 ≤ lo) (hb : b < 128) (s : State) :
    within lo hi b s = none :=
  if_neg fun h => absurd (UInt8.lt_of_lt_of_le hb (UInt8.le_trans hlo h.1)) (UInt8.lt_irrefl b)

/-- An ASCII byte never continues a character. -/
theorem feed_ascii {s : State} {b : UInt8} (hb : b < 128) (hs : s ≠ .start) : feed s b = none := by
  cases s with
  | start => exact absurd rfl hs
  | tails n => exact within_ascii (by decide) hb _
  | afterE0 => exact within_ascii (by decide) hb _
  | afterED => exact within_ascii (by decide) hb _
  | afterF0 => exact within_ascii (by decide) hb _
  | afterF4 => exact within_ascii (by decide) hb _

theorem enter_ascii {b : UInt8} (hb : b < 128) : enter b = ([b], .start, []) := by
  rw [enter, feed_start_ascii hb]

theorem lossyStep_start (held : Bytes) (b : UInt8) : lossyStep .start held b = enter b := rfl

theorem lossyStep_done {s : State} {held : Bytes} {b : UInt8} (hs : s ≠ .start)
    (h : feed s b = some .start) : lossyStep s held b = (held ++ [b], .start, []) := by
  cases s with
  | start => exact absurd rfl hs
  | _ => simp only [lossyStep, h]

theorem lossyStep_more {s s' : State} {held : Bytes} {b : UInt8} (hs : s ≠ .start)
    (h : feed s b = some s') (hs' : s' ≠ .start) : lossyStep s held b = ([], s', held ++ [b]) := by
  cases s with
  | start => exact absurd rfl hs
  | _ =>
    cases s' with
    | start => exact absurd rfl hs'
    | _ => simp only [lossyStep, h]

theorem lossyStep_broken {s : State} {held : Bytes} {b : UInt8} (hs : s ≠ .start)
    (h : feed s b = none) :
    lossyStep s held b = (replacement ++ (enter b).1, (enter b).2) := by
  cases s with
  | start => exact absurd rfl hs
  | _ => simp only [lossyStep, h]

/-! ## ASCII bytes are transparent -/

theorem lossyFrom_ascii (s : State) (held : Bytes) {c : UInt8} (hc : c < 128) (r : Bytes) :
    lossyFrom s held (c :: r) = lossyFrom s held [] ++ c :: lossy r := by
  by_cases hs : s = .start
  · subst hs
    rw [lossyFrom_cons, lossyStep_start, enter_ascii hc]
    rfl
  · rw [lossyFrom_cons, lossyStep_broken hs (feed_ascii hc hs), enter_ascii hc, lossyFrom_nil,
      if_neg hs]
    simp [lossy]

theorem lossyFrom_append_ascii (s : State) (held x : Bytes) {c : UInt8} (hc : c < 128)
    (r : Bytes) : lossyFrom s held (x ++ c :: r) = lossyFrom s held x ++ c :: lossy r := by
  induction x generalizing s held with
  | nil => exact lossyFrom_ascii s held hc r
  | cons b bs ih => rw [List.cons_append, lossyFrom_cons, ih, lossyFrom_cons, List.append_assoc]

/-- The conversion never looks across an ASCII byte. -/
theorem lossy_append_ascii (x : Bytes) {c : UInt8} (hc : c < 128) (r : Bytes) :
    lossy (x ++ c :: r) = lossy x ++ c :: lossy r :=
  lossyFrom_append_ascii .start [] x hc r

theorem lossy_cons_ascii {c : UInt8} (hc : c < 128) (r : Bytes) :
    lossy (c :: r) = c :: lossy r :=
  lossy_append_ascii [] hc r

theorem lossy_of_ascii {x : Bytes} (h : ∀ b ∈ x, b < 128) : lossy x = x := by
  induction x with
  | nil => rfl
  | cons b bs ih =>
    rw [lossy_cons_ascii (h b List.mem_cons_self), ih fun c hc => h c (List.mem_cons_of_mem _ hc)]

/-! ## The identity on UTF-8 -/

theorem feeds_append (s : State) (x y : Bytes) :
    feeds s (x ++ y) = (feeds s x).bind fun s' => feeds s' y := by
  induction x generalizing s with
  | nil => rfl
  | cons b bs ih =>
    simp only [List.cons_append, feeds]
    cases feed s b with
    | none => rfl
    | some s' => exact ih s'

theorem Valid.append {x y : Bytes} (hx : Valid x) (hy : Valid y) : Valid (x ++ y) := by
  unfold Valid at hx hy ⊢
  rw [feeds_append, hx]
  exact hy

/-- No character reaches over an ASCII byte. -/
theorem valid_append_ascii (x : Bytes) {c : UInt8} (hc : c < 128) (r : Bytes) :
    Valid (x ++ c :: r) ↔ Valid x ∧ Valid r := by
  unfold Valid
  rw [feeds_append]
  cases hx : feeds .start x with
  | none => simp
  | some s =>
    by_cases hs : s = .start
    · simp [feeds, hs, feed_start_ascii hc]
    · simp [feeds, feed_ascii hc hs, hs]

theorem valid_iff_lines (b : Bytes) : Valid b ↔ ∀ l ∈ Bytes.lines b, Valid l := by
  induction b using Bytes.lines_induction with
  | nil => simp [Valid, feeds]
  | last x hx h => simp [Bytes.lines_last hx h]
  | line x r h ih =>
    have hline : Valid (x ++ [Bytes.LF]) ↔ Valid x := by
      rw [valid_append_ascii x (by decide)]
      exact and_iff_left rfl
    rw [Bytes.lines_line h, List.forall_mem_cons, valid_append_ascii x (by decide), hline, ih]

theorem valid_replacement : Valid replacement := by decide

theorem lossyFrom_of_feeds {s : State} {held bs : Bytes} (hs : s = .start → held = [])
    (h : feeds s bs = some .start) : lossyFrom s held bs = held ++ bs := by
  induction bs generalizing s held with
  | nil =>
    obtain rfl := Option.some.inj h
    simp [lossyFrom, hs rfl]
  | cons b bs ih =>
    obtain ⟨s', hb, h⟩ := Option.bind_eq_some_iff.1 h
    rw [lossyFrom_cons]
    by_cases h0 : s = .start
    · subst h0
      rw [lossyStep_start, enter, hb, hs rfl]
      cases s' with
      | start => rw [ih (fun _ => rfl) h]; rfl
      | _ => rw [ih (fun e => by cases e) h]; rfl
    · by_cases h1 : s' = .start
      · subst h1
        rw [lossyStep_done h0 hb, ih (fun _ => rfl) h]
        simp
      · rw [lossyStep_more h0 hb h1, ih (fun e => absurd e h1) h]
        simp

theorem enter_valid (b : UInt8) :
    Valid (enter b).1 ∧ feeds .start (enter b).2.2 = some (enter b).2.1 := by
  unfold enter
  rcases hb : feed .start b with _ | (_ | _ | _ | _ | _ | _)
  all_goals first | exact ⟨valid_replacement, rfl⟩ | simp [Valid, feeds, hb]

theorem lossyFrom_valid {s : State} {held : Bytes} (hs : feeds .start held = some s)
    (bs : Bytes) : Valid (lossyFrom s held bs) := by
  induction bs generalizing s held with
  | nil =>
    rw [lossyFrom_nil]
    split_ifs
    · rfl
    · exact valid_replacement
  | cons b bs ih =>
    rw [lossyFrom_cons]
    by_cases h0 : s = .start
    · subst h0
      rw [lossyStep_start]
      exact (enter_valid b).1.append (ih (enter_valid b).2)
    · rcases hb : feed s b with _ | s'
      · rw [lossyStep_broken h0 hb]
        exact (valid_replacement.append (enter_valid b).1).append (ih (enter_valid b).2)
      · have hf : feeds .start (held ++ [b]) = some s' := by
          rw [feeds_append, hs]
          simp [feeds, hb]
        by_cases h1 : s' = .start
        · subst h1
          rw [lossyStep_done h0 hb]
          exact Valid.append hf (ih rfl)
        · rw [lossyStep_more h0 hb h1]
          exact ih hf

theorem valid_lossy (bs : Bytes) : Valid (lossy bs) := lossyFrom_valid rfl bs

/-- The lossy conversion changes nothing exactly on UTF-8. -/
theorem lossy_eq_self_iff {bs : Bytes} : lossy bs = bs ↔ Valid bs := by
  constructor
  · intro h
    rw [← h]
    exact valid_lossy bs
  · exact fun h => lossyFrom_of_feeds (fun _ => rfl) h

/-! ## Bytes that are not ASCII stay so -/

abbrev High (b : UInt8) : Prop := 128 ≤ b

theorem enter_high {b : UInt8} (hb : High b) :
    (∀ c ∈ (enter b).1, High c) ∧ (∀ c ∈ (enter b).2.2, High c) ∧
      ((enter b).1 = [] → (enter b).2.1 ≠ .start) := by
  unfold enter
  rcases h : feed .start b with _ | (_ | _ | _ | _ | _ | _) <;> simp [replacement, hb]

theorem high_replacement : ∀ c ∈ replacement, High c := by decide +kernel

theorem lossyStep_high {s : State} {held : Bytes} {b : UInt8} (hb : High b)
    (hh : ∀ c ∈ held, High c) :
    (∀ c ∈ (lossyStep s held b).1, High c) ∧ (∀ c ∈ (lossyStep s held b).2.2, High c) ∧
      ((lossyStep s held b).1 = [] → (lossyStep s held b).2.1 ≠ .start) := by
  have he := enter_high hb
  have happ : ∀ c ∈ held ++ [b], High c := by
    intro c hc
    rcases List.mem_append.1 hc with hc | hc
    · exact hh c hc
    · rwa [List.mem_singleton.1 hc]
  by_cases h0 : s = .start
  · subst h0
    exact he
  · rcases hf : feed s b with _ | s'
    · rw [lossyStep_broken h0 hf]
      refine ⟨fun c hc => ?_, he.2.1, by simp [replacement]⟩
      rcases List.mem_append.1 hc with hc | hc
      · exact high_replacement c hc
      · exact he.1 c hc
    · by_cases h1 : s' = .start
      · subst h1
        rw [lossyStep_done h0 hf]
        exact ⟨happ, by simp, by simp⟩
      · rw [lossyStep_more h0 hf h1]
        exact ⟨by simp, happ, fun _ => h1⟩

theorem lossyFrom_high {s : State} {held bs : Bytes} (hb : ∀ b ∈ bs, High b)
    (hh : ∀ c ∈ held, High c) :
    (∀ c ∈ lossyFrom s held bs, High c) ∧
      (lossyFrom s held bs = [] → s = .start ∧ bs = []) := by
  induction bs generalizing s held with
  | nil =>
    rw [lossyFrom_nil]
    split_ifs with hs
    · exact ⟨by simp, fun _ => ⟨hs, rfl⟩⟩
    · exact ⟨high_replacement, fun h => by cases h⟩
  | cons b bs ih =>
    have hst := lossyStep_high (s := s) (hb b List.mem_cons_self) hh
    have hrest := ih (s := (lossyStep s held b).2.1) (fun c hc => hb c (List.mem_cons_of_mem _ hc))
      hst.2.1
    rw [lossyFrom_cons]
    constructor
    · intro c hc
      rcases List.mem_append.1 hc with hc | hc
      · exact hst.1 c hc
      · exact hrest.1 c hc
    · intro h
      obtain ⟨h₁, h₂⟩ := List.append_eq_nil_iff.1 h
      exact absurd (hrest.2 h₂).1 (hst.2.2 h₁)

theorem lossy_high {bs : Bytes} (hb : ∀ b ∈ bs, High b) : ∀ c ∈ lossy bs, High c :=
  (lossyFrom_high hb (by simp)).1

/-! ## What the conversion keeps

Every byte string is cut into runs of high bytes at its ASCII bytes, and the conversion acts on
each run alone. -/

/-- Induction over the cuts of a byte string at its ASCII bytes. -/
theorem ascii_induction {P : Bytes → Prop} (high : ∀ x, (∀ b ∈ x, High b) → P x)
    (ascii : ∀ s c t, c < 128 → P s → P t → P (s ++ c :: t)) (x : Bytes) : P x := by
  induction hn : x.length using Nat.strongRecOn generalizing x with
  | ind n ih =>
    by_cases ha : ∃ a ∈ x, a < 128
    · obtain ⟨a, hm, hlt⟩ := ha
      obtain ⟨s, t, rfl⟩ := List.append_of_mem hm
      rw [List.length_append, List.length_cons] at hn
      exact ascii s a t hlt (ih s.length (by omega) s rfl) (ih t.length (by omega) t rfl)
    · exact high x fun b hb => UInt8.not_lt.1 fun hlt => ha ⟨b, hb, hlt⟩

theorem lossy_eq_nil_iff {x : Bytes} : lossy x = [] ↔ x = [] := by
  induction x using ascii_induction with
  | high x hx => exact ⟨fun h => ((lossyFrom_high hx (by simp)).2 h).2, by rintro rfl; rfl⟩
  | ascii s c t hc => simp [lossy_append_ascii s hc]

/-- An ASCII byte stands in the converted text exactly when it stands in the text. -/
theorem mem_lossy_ascii {c : UInt8} (hc : c < 128) {x : Bytes} : c ∈ lossy x ↔ c ∈ x := by
  induction x using ascii_induction with
  | high x hx =>
    constructor <;> intro h
    · exact absurd (lossy_high hx c h) (UInt8.not_le.2 hc)
    · exact absurd (hx c h) (UInt8.not_le.2 hc)
  | ascii s a t ha hs ht => simp [lossy_append_ascii s ha, hs, ht]

theorem head?_lossy {c : UInt8} (hc : c < 128) {x : Bytes} :
    (lossy x).head? = some c ↔ x.head? = some c := by
  induction x using ascii_induction with
  | high x hx =>
    constructor <;> intro h
    · exact absurd (lossy_high hx c (List.mem_of_head? h)) (UInt8.not_le.2 hc)
    · exact absurd (hx c (List.mem_of_head? h)) (UInt8.not_le.2 hc)
  | ascii s a t ha hs ht =>
    rw [lossy_append_ascii s ha, List.head?_append, List.head?_append]
    by_cases h : s = []
    · simp [h]
    · have h' : lossy s ≠ [] := fun e => h (lossy_eq_nil_iff.1 e)
      rw [List.head?_eq_some_head h', List.head?_eq_some_head h] at hs ⊢
      simpa using hs

theorem getLast?_lossy {c : UInt8} (hc : c < 128) {x : Bytes} :
    (lossy x).getLast? = some c ↔ x.getLast? = some c := by
  induction x using ascii_induction with
  | high x hx =>
    constructor <;> intro h
    · exact absurd (lossy_high hx c (List.mem_of_getLast? h)) (UInt8.not_le.2 hc)
    · exact absurd (hx c (List.mem_of_getLast? h)) (UInt8.not_le.2 hc)
  | ascii s a t ha hs ht =>
    rw [lossy_append_ascii s ha, List.getLast?_append_cons, List.getLast?_append_cons,
      List.getLast?_cons, List.getLast?_cons]
    by_cases h : t = []
    · simp [h]
    · have h' : lossy t ≠ [] := fun e => h (lossy_eq_nil_iff.1 e)
      rw [List.getLast?_eq_some_getLast h', List.getLast?_eq_some_getLast h] at ht ⊢
      simpa using ht

/-- A text whose conversion is all ASCII is all ASCII. -/
theorem ascii_of_lossy {x : Bytes} (h : ∀ b ∈ lossy x, b < 128) : ∀ b ∈ x, b < 128 := by
  induction x using ascii_induction with
  | high x hx =>
    have hn : lossy x = [] := by
      rw [List.eq_nil_iff_forall_not_mem]
      exact fun b hb => UInt8.not_lt.2 (lossy_high hx b hb) (h b hb)
    rw [lossy_eq_nil_iff.1 hn]
    simp
  | ascii s a t ha hs ht =>
    rw [lossy_append_ascii s ha] at h
    simp only [List.mem_append, List.mem_cons] at h ⊢
    rintro b (hb | rfl | hb)
    · exact hs (fun c hc => h c (Or.inl hc)) b hb
    · exact ha
    · exact ht (fun c hc => h c (Or.inr (Or.inr hc))) b hb

/-- A property that only all-ASCII texts have is not changed by the conversion. -/
theorem lossy_iff_of_ascii {P : Bytes → Prop} (hP : ∀ x, P x → ∀ b ∈ x, b < 128) {x : Bytes} :
    P (lossy x) ↔ P x := by
  constructor
  · intro h
    rwa [lossy_of_ascii (ascii_of_lossy (hP _ h))] at h
  · intro h
    rwa [lossy_of_ascii (hP x h)]

end Utf8
