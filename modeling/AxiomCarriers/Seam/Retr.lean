import AxiomCarriers.Antie.Pop3
import AxiomCarriers.Fatmama.Pop3

/-!
# A message from FATMAMA to ANTIE

FATMAMA answers RETR with a dot more on every line that begins with one, where a line ends in CR LF;
`read_multiline` reads lines that end in LF, takes a dot from every line that begins with two, and
stops at the first line that is a dot between white space.  So it reads back a message exactly where
no line that is sent as it is looks to it like a dotted one or like the end (`retr_read_iff`).
-/

namespace Seam

open Bytes Utf8 Text Antie.Pop3 Fatmama.Pop3

/-- The message with its final CR LF. -/
def withCrlf (data : Bytes) : Bytes := if crlf <:+ data then data else data ++ crlf

/-- A line that the reader takes for another; `fresh` says that the server looks for a dot at its
beginning, and sends one more. -/
def Misread (fresh : Bool) (l : Bytes) : Prop :=
  ¬ (fresh ∧ l.head? = some dot) ∧ (isDot l ∨ [dot, dot] <+: l)

/-- No line is misread.  The server looks for a dot at the beginning of the message and behind every
CR LF. -/
def Legible : Bool → List Bytes → Prop
  | _, [] => True
  | fresh, l :: ls => ¬ Misread fresh l ∧ Legible (crlf <:+ l) ls

/-! ## What the server sends -/

theorem dot_prefix_iff_head? (l : Bytes) : [dot] <+: l ↔ l.head? = some dot := by
  cases l with
  | nil => simp
  | cons b l => simp [List.cons_prefix_cons, eq_comm]

theorem retrBody_eq (data : Bytes) :
    retrBody data = stuffText true (withCrlf data) ++ ascii ".\r\n" := by
  have hstuff : replace (ascii "\r\n.") (ascii "\r\n..") data = stuffDots data := rfl
  have hdot : ascii "." = [dot] := rfl
  have hhead : (data ++ crlf).head? = some dot ↔ data.head? = some dot := by
    cases data with
    | nil => exact ⟨fun h => absurd (Option.some.inj h) (by decide), fun h => by simp at h⟩
    | cons b r => exact Iff.rfl
  have hend : crlf <:+ (if data.head? = some dot then [dot] ++ stuffDots data else stuffDots data) ↔
      crlf <:+ data := by
    have hsuf : crlf <:+ stuffDots data ↔ crlf <:+ data := by
      refine ⟨crlf_suffix_stuffDots, ?_⟩
      rintro ⟨r, rfl⟩
      exact ⟨stuffDots r, (stuffDots_append_crlf r).symm⟩
    split_ifs
    · rw [← hsuf]
      refine ⟨fun h => (List.suffix_cons_iff.1 h).resolve_left fun he => ?_,
        fun h => h.trans (List.suffix_cons dot _)⟩
      exact absurd (List.cons.inj he).1 (by decide)
    · exact hsuf
  simp only [retrBody, hstuff, hdot, dot_prefix_iff_head?, head?_stuffDots, hend]
  by_cases h : crlf <:+ data
  · simp only [withCrlf, stuffText, if_pos h, true_and, List.append_nil]
    split_ifs <;> simp
  · simp only [withCrlf, stuffText, if_neg h, true_and, hhead, stuffDots_append_crlf]
    split_ifs <;> simp

/-! ## What the reader makes of it -/

theorem unstuff_eq_dropDot (l : Bytes) : Antie.Pop3.unstuff l = dropDot l :=
  if_congr List.isPrefixOf_iff_prefix rfl rfl

theorem stuffLine_eq_self {fresh : Bool} {l : Bytes} (h : ¬ (fresh ∧ l.head? = some dot)) :
    stuffLine fresh l = l := by
  cases fresh with
  | false => rfl
  | true =>
    have hl : l.head? ≠ some dot := fun hl => h ⟨rfl, hl⟩
    simp [stuffLine, addDot, hl]

/-- A line with a dot more is read as the line. -/
theorem read_doubled {fresh : Bool} {l : Bytes} (h : fresh ∧ l.head? = some dot) :
    ¬ isDot (stuffLine fresh l) ∧ Antie.Pop3.unstuff (stuffLine fresh l) = l := by
  obtain ⟨hfresh, hhead⟩ := h
  have hline : stuffLine fresh l = dot :: l := by simp [stuffLine, hfresh, addDot, hhead]
  have hdouble : addDot l = dot :: l := if_pos hhead
  refine ⟨fun hdot => ?_, by rw [unstuff_eq_dropDot, hline, ← hdouble, dropDot_addDot]⟩
  obtain ⟨r, rfl⟩ : ∃ r, l = dot :: r := by
    cases l with
    | nil => simp at hhead
    | cons b r => exact ⟨r, by simpa using hhead⟩
  have hpre : [dot, dot] <+: trim ([dot, dot] ++ r) := prefix_trim (by decide) r
  have hone : trim (dot :: dot :: r) = [46] := of_decide_eq_true (hline ▸ hdot)
  exact absurd ((hone ▸ hpre).length_le) (by decide)

theorem valid_stuffLine (fresh : Bool) (l : Bytes) : Valid (stuffLine fresh l) ↔ Valid l := by
  have hdot : Valid (dot :: l) ↔ Valid l := by
    unfold Valid
    rw [feeds, feed_start_ascii (by decide)]
    rfl
  unfold stuffLine addDot
  split_ifs
  · exact hdot
  · exact Iff.rfl
  · exact Iff.rfl

/-- Nothing is longer when it is read. -/
theorem multiline_length {what data last : Bytes} {fresh : Bool} {ls : List Bytes} {n : ℕ}
    (h : multiline what (stuffLines fresh ls ++ [last]) = .ok (data, n)) :
    data.length ≤ ls.flatten.length := by
  induction ls generalizing fresh data n with
  | nil =>
    rw [stuffLines, List.nil_append, multiline] at h
    split_ifs at h
    · obtain ⟨rfl, -⟩ := Prod.mk.inj (Except.ok.inj h)
      exact Nat.zero_le _
    · simp [multiline, Except.map] at h
  | cons l ls ih =>
    rw [stuffLines, List.cons_append, multiline] at h
    split_ifs at h
    · obtain ⟨rfl, -⟩ := Prod.mk.inj (Except.ok.inj h)
      exact Nat.zero_le _
    · obtain ⟨⟨rest, m⟩, hm, hr⟩ := Except.map_eq_ok_iff.1 h
      obtain ⟨rfl, -⟩ := Prod.mk.inj hr
      have hl : (Antie.Pop3.unstuff (stuffLine fresh l)).length ≤ l.length := by
        by_cases hd : fresh ∧ l.head? = some dot
        · exact (congrArg List.length (read_doubled hd).2).le
        · rw [stuffLine_eq_self hd, unstuff_eq_dropDot]
          exact length_dropDot_le l
      have hrest := ih hm
      simp only [List.flatten_cons, List.length_append]
      omega

/-- A line that does not end the message is read back, with what follows, exactly where it is not
misread and what follows is read back. -/
theorem read_line_iff {fresh : Bool} {l data rest : Bytes} (hdot : ¬ isDot (stuffLine fresh l))
    (hlen : data.length ≤ rest.length) :
    Antie.Pop3.unstuff (stuffLine fresh l) ++ data = l ++ rest ↔
      ¬ Misread fresh l ∧ data = rest := by
  by_cases hd : fresh ∧ l.head? = some dot
  · rw [(read_doubled hd).2, List.append_cancel_left_eq]
    exact ⟨fun h => ⟨fun hmis => hmis.1 hd, h⟩, fun h => h.2⟩
  · rw [stuffLine_eq_self hd] at hdot ⊢
    rw [unstuff_eq_dropDot]
    by_cases hdots : [dot, dot] <+: l
    · refine iff_of_false (fun he => ?_) fun h => h.1 ⟨hd, Or.inr hdots⟩
      have hshort := length_dropDot (mt dropDot_eq_self_iff.1 (not_not.2 hdots))
      have heq := congrArg List.length he
      simp only [List.length_append] at heq
      omega
    · rw [dropDot_eq_self_iff.2 hdots, List.append_cancel_left_eq]
      exact ⟨fun h => ⟨fun hmis => hmis.2.elim hdot hdots, h⟩, fun h => h.2⟩

/-- The lines are read back exactly where each is valid and none is misread. -/
theorem multiline_eq_iff (what : Bytes) {last : Bytes} (hlast : isDot last) (hvalid : Valid last)
    {ls : List Bytes} (hne : [] ∉ ls) (fresh : Bool) :
    (multiline what (stuffLines fresh ls ++ [last])).map (·.1) = .ok ls.flatten ↔
      (∀ l ∈ ls, Valid l) ∧ Legible fresh ls := by
  induction ls generalizing fresh with
  | nil => simp [stuffLines, multiline, hlast, hvalid, Except.map, Legible]
  | cons l ls ih =>
    rw [List.mem_cons, not_or] at hne
    rw [stuffLines, List.cons_append, multiline, List.forall_mem_cons, Legible]
    by_cases hv : Valid l
    · rw [if_neg (not_not.2 ((valid_stuffLine fresh l).2 hv))]
      by_cases hdot : isDot (stuffLine fresh l)
      · -- the line ends the message
        have hd : ¬ (fresh ∧ l.head? = some dot) := fun hd => (read_doubled hd).1 hdot
        have hmis : Misread fresh l := ⟨hd, Or.inl (stuffLine_eq_self hd ▸ hdot)⟩
        rw [if_pos hdot]
        refine iff_of_false (fun he => hne.1 ?_) fun h => h.2.1 hmis
        have hnil := Except.ok.inj he
        exact (List.append_eq_nil_iff.1 hnil.symm).1.symm
      · rw [if_neg hdot]
        specialize ih hne.2 (crlf <:+ l)
        cases hm : multiline what (stuffLines (crlf <:+ l) ls ++ [last]) with
        | error e =>
          rw [hm] at ih
          exact iff_of_false (fun he => by simp [Except.map] at he)
            fun h => by simpa [Except.map] using ih.2 ⟨h.1.2, h.2.2⟩
        | ok p =>
          obtain ⟨data, n⟩ := p
          rw [hm] at ih
          have hrest : data = ls.flatten ↔ _ := Iff.trans ⟨congrArg Except.ok, Except.ok.inj⟩ ih
          refine Iff.trans (b := Antie.Pop3.unstuff (stuffLine fresh l) ++ data = l ++ ls.flatten)
            ⟨Except.ok.inj, congrArg Except.ok⟩ ?_
          rw [read_line_iff hdot (multiline_length hm), hrest, and_left_comm]
          simp only [hv, true_and]
    · rw [if_pos (mt (valid_stuffLine fresh l).1 hv)]
      exact iff_of_false (fun he => by simp [Except.map] at he) fun h => hv h.1.1

/-! ## The round trip -/

theorem valid_withCrlf (data : Bytes) : Valid (withCrlf data) ↔ Valid data := by
  unfold withCrlf
  split_ifs
  · exact Iff.rfl
  · rw [valid_append_ascii data (by decide)]
    exact and_iff_left rfl

theorem crlf_suffix_withCrlf (data : Bytes) : crlf <:+ withCrlf data := by
  unfold withCrlf
  split_ifs with h
  · exact h
  · exact List.suffix_append data crlf

/-- `read_multiline` reads the message back exactly where it is valid UTF-8 and none of its lines is
misread. -/
theorem retr_read_iff (data : Bytes) :
    (∀ which cs, cs.flatten = retrBody data →
      (readMultiline which cs).map (·.1) = .ok (withCrlf data)) ↔
    Valid data ∧ Legible true (lines (withCrlf data)) := by
  have hend : [LF] <:+ stuffText true (withCrlf data) := by
    obtain ⟨r, hr⟩ := crlf_suffix_withCrlf data
    rw [stuffText, ← hr, stuffDots_append_crlf, ← List.append_assoc]
    exact (List.suffix_cons CR [LF]).trans (List.suffix_append _ crlf)
  have hlines : lines (retrBody data) =
      stuffLines true (lines (withCrlf data)) ++ [ascii ".\r\n"] := by
    rw [retrBody_eq, lines_append (Or.inr hend), lines_stuffText]
    rfl
  have hread : ∀ which cs, cs.flatten = retrBody data →
      ((readMultiline which cs).map (·.1) = .ok (withCrlf data) ↔
        Valid data ∧ Legible true (lines (withCrlf data))) := by
    intro which cs hcs
    have hne : [] ∉ lines (withCrlf data) := fun h => ne_nil_of_mem_lines h rfl
    have hdot : isDot (ascii ".\r\n") := by decide +kernel
    have h := multiline_eq_iff (ascii "POP3 RETR " ++ which) hdot (by decide) hne true
    rw [flatten_lines, ← valid_iff_lines, valid_withCrlf] at h
    rw [readMultiline, hcs, hlines, ← h]
    cases multiline (ascii "POP3 RETR " ++ which)
      (stuffLines true (lines (withCrlf data)) ++ [ascii ".\r\n"]) <;> rfl
  refine ⟨fun h => (hread [] [retrBody data] (by simp)).1 (h _ _ (by simp)), fun h which cs hcs => ?_⟩
  exact (hread which cs hcs).2 h

/-- A line with a blank and a dot ends the message. -/
theorem retr_blank_dot :
    ¬ ∀ which cs, cs.flatten = retrBody (ascii "a\r\n .\r\nb\r\n") →
      (readMultiline which cs).map (·.1) = .ok (withCrlf (ascii "a\r\n .\r\nb\r\n")) := by
  intro h
  have hread := h (ascii "msg=1") [retrBody (ascii "a\r\n .\r\nb\r\n")] (by simp)
  have hcut : (readMultiline (ascii "msg=1") [retrBody (ascii "a\r\n .\r\nb\r\n")]).map (·.1) =
      .ok (ascii "a\r\n") := by rfl
  rw [hcut] at hread
  exact absurd (Except.ok.inj hread) (by decide +kernel)

end Seam
