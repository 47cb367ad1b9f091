import AxiomCarriers.Fatmama.Transfer

/-!
# Delivery to another site

`cross_site_deliver` sends a message to the FATMAMA of another site.  It puts a dot before every
line that begins with one except the first, while the receiver takes a dot from every line that
begins with two.  So a message is stored as it is exactly where it does not itself begin with two
dots (`crossSite_stored_iff`).
-/

namespace Fatmama

open Bytes Runs

/-! ## The client -/

/-- What is sent for the message after DATA. -/
def crossSiteText (raw : Bytes) : Bytes :=
  let body := replace (ascii "\r\n.") (ascii "\r\n..") raw
  body ++ (if crlf <:+ body then [] else crlf) ++ ascii ".\r\n"

/-- The longest line that the client reads. -/
def replyLimit : ℕ := 64 * 1024

/-- `readline` on the lines that the server answers; `none` for a line that is too long, or that
does not come. -/
def readReply : List Bytes → Option (Bytes × List Bytes)
  | [] => none
  | l :: ls => if l.length ≤ replyLimit + 1 then some (l, ls) else none

def upperAscii (b : UInt8) : UInt8 := if 97 ≤ b ∧ b ≤ 122 then b - 32 else b

/-- The loop of `handshake_ok`: whether the server has named the capability, and the answers that
are left. -/
def handshakeOk : ℕ → Bool → List Bytes → Option (Bool × List Bytes)
  | 0, saw, ls => some (saw, ls)
  | _ + 1, saw, [] => some (saw, [])
  | n + 1, saw, l :: ls =>
    if l.length ≤ replyLimit + 1 then
      let saw := saw || ascii "XAXIOM-FATMAMA" <:+: l.map upperAscii
      if (l.drop 3).head? = some 45 then handshakeOk n saw ls else some (saw, ls)
    else none

/-- The answers to the commands begin as expected. -/
def expectAll : List Bytes → List Bytes → Bool
  | [], _ => true
  | w :: ws, ls =>
    match readReply ls with
    | some (l, ls) => w <+: l && expectAll ws ls
    | none => false

/-- What `cross_site_deliver` returns on the answers of the server. -/
def crossSiteDeliver (answers : Bytes) : Bool :=
  match readReply (lines answers) with
  | none => false
  | some (greet, ls) =>
    if ¬ ascii "220" <+: greet then false
    else match handshakeOk 20 false ls with
      | some (true, ls) => expectAll [ascii "250", ascii "250", ascii "354", ascii "250"] ls
      | _ => false

/-! ## The text of a message -/

theorem unstuff_stuffDots (r : Bytes) : unstuff (stuffDots r) = dropDot r := by
  rw [unstuff_eq, splitCrlf_stuffDots]
  cases r using crlf_induction with
  | last p hp => simp [splitCrlf_last hp, stuffTail]
  | piece p r hp =>
    have hinv : dropDot ∘ addDot = id := funext dropDot_addDot
    rw [splitCrlf_piece hp, stuffTail, List.map_cons, List.map_map, hinv, List.map_id,
      intercalate_cons (splitCrlf_ne_nil r), intercalate_splitCrlf, dropDot_append_crlf]

/-- The text is the message, up to one CR LF at its end, with its dots doubled. -/
theorem crossSiteText_eq (raw : Bytes) :
    ∃ r, (raw = r ∨ raw = r ++ crlf) ∧ crossSiteText raw = stuffDots r ++ dotLine := by
  have hbody : replace (ascii "\r\n.") (ascii "\r\n..") raw = stuffDots raw := rfl
  have hend : dotLine = crlf ++ ascii ".\r\n" := rfl
  rw [crossSiteText, hbody, hend]
  by_cases h : crlf <:+ stuffDots raw
  · obtain ⟨r, rfl⟩ := crlf_suffix_stuffDots h
    refine ⟨r, Or.inr rfl, ?_⟩
    rw [if_pos h, List.append_nil, stuffDots_append_crlf, List.append_assoc]
  · refine ⟨raw, Or.inl rfl, ?_⟩
    rw [if_neg h, List.append_assoc]

theorem cut_crossSiteText {raw r : Bytes} (h : crossSiteText raw = stuffDots r ++ dotLine)
    (rest : Bytes) : cut terminator (crossSiteText raw ++ rest) = some (stuffDots r, rest) := by
  rw [h, terminator_eq]
  refine cut_dotLine ?_ rest
  rw [splitCrlf_stuffDots]
  cases splitCrlf r with
  | nil => simp [stuffTail]
  | cons p ls =>
    rw [stuffTail, List.tail_cons]
    exact fun hm => (List.mem_map.1 hm).elim fun l hl => addDot_ne_dot l hl.2

/-- The receiver reads back the message where it does not begin with two dots. -/
theorem upToCrlf_dropDot_iff {raw r : Bytes} (h : raw = r ∨ raw = r ++ crlf) :
    UpToCrlf (dropDot r) raw ↔ ¬ [dot, dot] <+: raw := by
  have hraw : dropDot raw = raw ↔ dropDot r = r := by
    rcases h with rfl | rfl
    · exact Iff.rfl
    · have happ := dropDot_append_crlf r []
      rw [List.append_nil, List.append_nil] at happ
      rw [happ, List.append_cancel_right_eq]
  rw [← dropDot_eq_self_iff, hraw]
  constructor
  · intro hup
    by_contra hne
    have hlen := length_dropDot hne
    have hlens : (dropDot r).length = raw.length ∨ (dropDot r).length = raw.length + 2 ∨
        (dropDot r).length + 2 = raw.length := by
      rcases hup with hup | hup | hup
      · exact Or.inl (congrArg List.length hup)
      · exact Or.inr (Or.inl (by simpa using congrArg List.length hup))
      · exact Or.inr (Or.inr (by simpa using congrArg List.length hup))
    have hrlen : raw.length = r.length ∨ raw.length = r.length + 2 := by
      rcases h with rfl | rfl
      · exact Or.inl rfl
      · exact Or.inr (by simp)
    omega
  · intro hself
    rw [hself]
    rcases h with rfl | rfl
    · exact Or.inl rfl
    · exact Or.inr (Or.inr rfl)

/-! ## The round trip -/

theorem crossSiteDeliver_sample : crossSiteDeliver
    (sampleOut ++ [ascii "354 Go\r\n"] ++ [ascii "250 OK\r\n"]).flatten = true := by decide +kernel

/-- The message of a transfer that is delivered is stored as it is exactly where it does not begin
with two dots. -/
theorem crossSite_stored_iff (raw : Bytes) :
    (∀ (c : SmtpConfig) (server : State) (e : Envelope) (es : List SmtpEvent) (t : Connection),
      c.py.ReadsVerbs → run (smtpStep c) (connected c server (e.writes (crossSiteText raw))) es = some t →
      crossSiteDeliver t.out.flatten → ∀ r ∈ t.log, ∀ x ∈ r.stored, UpToCrlf x.2 raw) ↔
    ¬ ascii ".." <+: raw := by
  obtain ⟨r, hr, htext⟩ := crossSiteText_eq raw
  have hcut := cut_crossSiteText htext quitLine
  constructor
  · intro h
    obtain ⟨t, hrun, -, -, hout, q, hq, hx⟩ := sample_transfer _ hcut
    have hup := h smtpConfig sampleServer sampleEnvelope _ t asciiStr_readsVerbs hrun
      (hout ▸ crossSiteDeliver_sample) q hq _ hx
    rw [unstuff_stuffDots] at hup
    exact (upToCrlf_dropDot_iff hr).1 hup
  · intro h c server e es t hpy hrun _ q hq x hx
    cases transfer_run hpy hcut hrun with
    | before ls hls hne input log => simp [log] at hq
    | lost input alive log => simp [log] at hq
    | after input log =>
      rw [log q hq x hx, unstuff_stuffDots]
      exact (upToCrlf_dropDot_iff hr).2 h

/-- A message that begins with two dots is delivered and stored with one. -/
theorem crossSite_dots :
    ∃ es t, run (smtpStep smtpConfig)
        (connected smtpConfig sampleServer (sampleEnvelope.writes (crossSiteText (ascii "..x")))) es =
        some t ∧ crossSiteDeliver t.out.flatten ∧
      ∃ r ∈ t.log, ∃ x ∈ r.stored, ¬ UpToCrlf x.2 (ascii "..x") := by
  have hcut : cut terminator (crossSiteText (ascii "..x") ++ quitLine) =
      some (ascii "..x", quitLine) := by decide
  have hne : ¬ UpToCrlf (unstuff (ascii "..x")) (ascii "..x") := by decide +kernel
  obtain ⟨t, hrun, -, -, hout, r, hr, hx⟩ := sample_transfer _ hcut
  exact ⟨_, t, hrun, hout ▸ crossSiteDeliver_sample, r, hr, _, hx, hne⟩

end Fatmama
