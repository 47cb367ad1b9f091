import AxiomCarriers.Fatmama.Transfer

/-!
# A mail from ANTIE to FATMAMA

`SmtpCarrier::send` writes a mail as it is behind DATA, and a line that is a dot.  FATMAMA takes a
dot from every line that begins with two, and ends the mail at its first line that is a dot; what
follows that it takes for commands.  So a mail arrives as it is exactly where no line of it begins
with two dots and none but the first is a dot (`send_stored_iff`).
-/

namespace Seam

open Bytes Runs Fatmama

/-- What `SmtpCarrier::send` writes for the mail after DATA. -/
def sendText (rawEmail : Bytes) : Bytes := rawEmail ++ ascii "\r\n.\r\n"

/-- Where the connection reads its next command, the mail is all to come, or all read. -/
def Uninterpreted (e : Envelope) (rawEmail : Bytes) (t : Connection) : Prop :=
  t.alive → t.input <:+ quitLine ∨
    ∃ ls, ls <:+ e.commands ∧ ls ≠ [] ∧ t.input = ls.flatten ++ (sendText rawEmail ++ quitLine)

/-- The mail is its own text on the wire. -/
def Plain (rawEmail : Bytes) : Prop :=
  (∀ l ∈ splitCrlf rawEmail, ¬ ascii ".." <+: l) ∧ ascii "." ∉ (splitCrlf rawEmail).tail

/-- A mail with a line that is a dot is cut there, and its rest is read as commands. -/
theorem not_uninterpreted {rawEmail : Bytes} (h : [dot] ∈ (splitCrlf rawEmail).tail) :
    ∃ es t, run (smtpStep smtpConfig)
      (connected smtpConfig sampleServer (sampleEnvelope.writes (sendText rawEmail))) es = some t ∧
      ¬ Uninterpreted sampleEnvelope rawEmail t := by
  obtain ⟨a, r, hcut, hlen⟩ := cut_dotLine_early h quitLine
  rw [← terminator_eq] at hcut
  obtain ⟨t, hrun, halive, hinput, -, -⟩ := sample_transfer (sendText rawEmail) hcut
  refine ⟨_, t, hrun, fun hun => ?_⟩
  rcases hun halive with hq | ⟨ls, -, -, hls⟩
  · have hle := hq.length_le
    rw [hinput] at hle
    omega
  · have hwhole := congrArg List.length (cut_eq hcut)
    have hr := congrArg List.length hls
    rw [hinput] at hr
    have hterm : terminator.length = 5 := rfl
    simp only [sendText, terminator, List.length_append] at hwhole hr hterm
    omega

/-- A mail reaches the mailbox as it is, and none of it is taken for a command, exactly where it is
its own text on the wire. -/
theorem send_stored_iff (rawEmail : Bytes) :
    (∀ (c : SmtpConfig) (server : State) (e : Envelope) (es : List SmtpEvent) (t : Connection),
      c.py.ReadsVerbs →
      run (smtpStep c) (connected c server (e.writes (sendText rawEmail))) es = some t →
      (∀ r ∈ t.log, ∀ x ∈ r.stored, UpToCrlf x.2 rawEmail) ∧ Uninterpreted e rawEmail t) ↔
    Plain rawEmail := by
  constructor
  · intro h
    have hdot : [dot] ∉ (splitCrlf rawEmail).tail := fun hmem => by
      obtain ⟨es, t, hrun, hun⟩ := not_uninterpreted hmem
      exact hun (h _ _ _ es t asciiStr_readsVerbs hrun).2
    refine ⟨(upToCrlf_unstuff_iff rawEmail).1 ?_, hdot⟩
    obtain ⟨t, hrun, -, -, -, r, hr, hx⟩ :=
      sample_transfer (sendText rawEmail) (cut_dotLine hdot quitLine)
    exact (h _ _ _ _ t asciiStr_readsVerbs hrun).1 r hr _ hx
  · rintro ⟨hdots, hdot⟩ c server e es t hpy hrun
    cases transfer_run hpy (cut_dotLine hdot quitLine) hrun with
    | before ls hls hne input log =>
      exact ⟨by simp [log], fun _ => Or.inr ⟨ls, hls, hne, input⟩⟩
    | lost input alive log => exact ⟨by simp [log], fun halive => absurd halive alive⟩
    | after input log =>
      refine ⟨fun r hr x hx => ?_, fun _ => Or.inl input⟩
      rw [log r hr x hx]
      exact (upToCrlf_unstuff_iff rawEmail).2 hdots

/-- The lines behind a dot are commands to the server. -/
theorem send_command :
    ∃ es t, run (smtpStep smtpConfig) (connected smtpConfig sampleServer
        (sampleEnvelope.writes (sendText (ascii "x\r\n.\r\nRSET")))) es = some t ∧
      ¬ ((∀ r ∈ t.log, ∀ x ∈ r.stored, UpToCrlf x.2 (ascii "x\r\n.\r\nRSET")) ∧
        Uninterpreted sampleEnvelope (ascii "x\r\n.\r\nRSET") t) := by
  have hdot : [dot] ∈ (splitCrlf (ascii "x\r\n.\r\nRSET")).tail := by decide +kernel
  obtain ⟨es, t, hrun, hun⟩ := not_uninterpreted hdot
  exact ⟨es, t, hrun, fun h => hun h.2⟩

end Seam
