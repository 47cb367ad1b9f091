import AxiomCarriers.Antie.Outgoing
import AxiomCarriers.Fatmama.Recipient

/-!
# The recipient of ANTIE's mails

The collector does not know the address that ANTIE routed a mail on: it reads it from the mail
again.  `recipient_read_iff` says for which mails it reads the same one: the address survives the
header, and the header is not encrypted with the rest of the mail.
-/

namespace Seam

open Bytes Utf8 Antie.Outgoing Fatmama

/-- What is documented of `strip` and `lower` on a header: `strip` takes white space from the ends,
CR and LF are white space, and visible characters are not; `lower` changes letters alone. -/
structure ReadsHeaders (py : Str) : Prop where
  strip_subset : ∀ w, py.strip w ⊆ w
  mem_strip : ∀ w, ∀ b ∈ w, 33 ≤ b → b ≤ 126 → b ∈ py.strip w
  strip_asciiStrip : ∀ w, py.strip (asciiStrip w) = py.strip w
  strip_lines : ∀ w, CR ∉ py.strip w → LF ∉ py.strip w →
    py.strip (w.filter fun b => b ≠ CR ∧ b ≠ LF) = py.strip w
  mem_lower : ∀ w, ∀ b ∈ [CR, LF, 60, 62, 64], b ∈ py.lower w ↔ b ∈ w

/-- The recipient does not have both a < and a >, and no end of a line but what is stripped away. -/
def FitsHeader (py : Str) (recipient : Bytes) : Prop :=
  ¬ (60 ∈ recipient ∧ 62 ∈ recipient) ∧ CR ∉ py.strip recipient ∧ LF ∉ py.strip recipient

/-! ## The header -/

variable {py : Str}

theorem mem_sanitizeHeader {b : UInt8} (hcr : b ≠ CR) (hlf : b ≠ LF) {w : Bytes} :
    b ∈ sanitizeHeader w ↔ b ∈ w := by
  simp [sanitizeHeader, hcr, hlf]

theorem valid_sanitizeHeader {w : Bytes} (h : Valid w) : Valid (sanitizeHeader w) := by
  have hfeeds : ∀ s, feeds s w = some .start → feeds s (sanitizeHeader w) = some .start := by
    clear h
    induction w with
    | nil => exact fun s hs => hs
    | cons b w ih =>
      intro s hs
      obtain ⟨s', hb, hs'⟩ := Option.bind_eq_some_iff.1 hs
      by_cases hline : b = CR ∨ b = LF
      · have hlt : b < 128 := by rcases hline with rfl | rfl <;> decide
        have hstart : s = .start := by
          by_contra hne
          rw [feed_ascii hlt hne] at hb
          cases hb
        subst hstart
        rw [feed_start_ascii hlt] at hb
        obtain rfl := Option.some.inj hb
        have hdrop : sanitizeHeader (b :: w) = sanitizeHeader w :=
          List.filter_cons_of_neg (by
            rcases hline with rfl | rfl <;> decide)
        rw [hdrop]
        exact ih _ hs'
      · have hkeep : sanitizeHeader (b :: w) = b :: sanitizeHeader w :=
          List.filter_cons_of_pos (by simpa [not_or] using hline)
        rw [hkeep, feeds, hb]
        exact ih _ hs'
  exact hfeeds _ h

/-- What the server reads of a mail that is not encrypted. -/
theorem parseRecipient_built {recipient sender mail : Bytes} {kind : Kind} (hvalid : Valid recipient)
    (h : Built recipient sender kind mail) :
    parseRecipient py mail =
      py.norm (if 60 ∈ recipient ∧ 62 ∈ recipient then bracketed (asciiStrip (sanitizeHeader recipient))
        else asciiStrip (sanitizeHeader recipient)) := by
  have hlf : ∀ w, LF ∉ sanitizeHeader w := fun w => by simp [sanitizeHeader]
  have hmem : ∀ b, ¬ isWs b → (b ∈ asciiStrip (sanitizeHeader recipient) ↔ b ∈ recipient) := by
    intro b hb
    rw [mem_asciiStrip hb, mem_sanitizeHeader]
    · rintro rfl
      exact hb (by decide)
    · rintro rfl
      exact hb (by decide)
  obtain ⟨rest, rfl⟩ := h.headers
  rw [parseRecipient_second (hlf sender) (hlf recipient) (valid_sanitizeHeader hvalid)]
  simp only [hmem 60 (by decide), hmem 62 (by decide)]

theorem norm_sanitizeHeader_iff (hpy : ReadsHeaders py) (w : Bytes) :
    py.norm (asciiStrip (sanitizeHeader w)) = py.norm w ↔ CR ∉ py.strip w ∧ LF ∉ py.strip w := by
  constructor
  · intro h
    have hnot : ∀ b, b = CR ∨ b = LF → b ∉ py.strip w := by
      intro b hb hmem
      have hlist : b ∈ [CR, LF, 60, 62, 64] := by rcases hb with rfl | rfl <;> simp
      have hnorm : b ∈ py.norm w := (hpy.mem_lower _ b hlist).2 hmem
      rw [← h] at hnorm
      have hsan : b ∈ sanitizeHeader w :=
        asciiStrip_subset _ (hpy.strip_subset _ ((hpy.mem_lower _ b hlist).1 hnorm))
      rcases hb with rfl | rfl <;> simp [sanitizeHeader] at hsan
    exact ⟨hnot CR (Or.inl rfl), hnot LF (Or.inr rfl)⟩
  · rintro ⟨hcr, hlf⟩
    rw [Str.norm, hpy.strip_asciiStrip]
    exact congrArg py.lower (hpy.strip_lines w hcr hlf)

/-- What stands between < and > has no >. -/
theorem norm_bracketed_ne (hpy : ReadsHeaders py) {w : Bytes} (h : 62 ∈ w) (v : Bytes) :
    py.norm (bracketed v) ≠ py.norm w := by
  intro heq
  have hw : 62 ∈ py.norm w := (hpy.mem_lower _ 62 (by decide)).2
    (hpy.mem_strip w 62 h (by decide) (by decide))
  rw [← heq] at hw
  have hmem : 62 ∈ bracketed v := hpy.strip_subset _ ((hpy.mem_lower _ 62 (by decide)).1 hw)
  have htake := List.mem_takeWhile_imp
    ((List.dropWhile_suffix _).subset (List.mem_of_mem_tail hmem))
  simp at htake

theorem parseRecipient_built_iff (hpy : ReadsHeaders py) {recipient sender mail : Bytes} {kind : Kind}
    (hvalid : Valid recipient) (h : Built recipient sender kind mail) :
    parseRecipient py mail = py.norm recipient ↔ FitsHeader py recipient := by
  rw [parseRecipient_built hvalid h, FitsHeader]
  by_cases hbr : 60 ∈ recipient ∧ 62 ∈ recipient
  · rw [if_pos hbr]
    exact iff_of_false (norm_bracketed_ne hpy hbr.2 _) fun hfits => hfits.1 hbr
  · rw [if_neg hbr, norm_sanitizeHeader_iff hpy]
    exact (and_iff_right hbr).symm

theorem mem_norm_at (hpy : ReadsHeaders py) {w : Bytes} (h : 64 ∈ w) : 64 ∈ py.norm w :=
  (hpy.mem_lower _ 64 (by decide)).2 (hpy.mem_strip w 64 h (by decide) (by decide))

/-! ## Encryption -/

/-- Some encrypted message is not read as a mail to this recipient. -/
theorem exists_packets (hpy : ReadsHeaders py) (recipient : Bytes) :
    ∃ r, parseRecipient py (0xC1 :: r) ≠ py.norm recipient := by
  by_cases h : py.norm recipient = []
  · refine ⟨LF :: ascii "to:@", fun heq => ?_⟩
    have hread : parseRecipient py (0xC1 :: LF :: ascii "to:@") = py.norm (ascii "@") := by rfl
    have hat : 64 ∈ py.norm (ascii "@") := mem_norm_at hpy (by decide)
    rw [← hread, heq, h] at hat
    cases hat
  · refine ⟨[], fun heq => h ?_⟩
    have hread : parseRecipient py [0xC1] = [] := by rfl
    rw [← heq, hread]

/-- Whatever the encryption writes where it succeeds, the collector reads the recipient of a mail, in
lower case and stripped, and never leaves it as unroutable: this is so exactly where the recipient
fits the header and the mail goes out unencrypted, as a reply, for want of a key, or because the
encryption fails. -/
theorem recipient_read_iff (hpy : ReadsHeaders py) {recipient sender mail : Bytes} {kind : Kind}
    (hvalid : Valid recipient) (h : Built recipient sender kind mail) (pgp : Pgp) :
    (∀ pgp' : Pgp, pgp'.Outcomes pgp → pgp'.WritesPackets →
      parseRecipient py (emitted pgp' recipient kind mail) = py.norm recipient ∧
      (64 ∈ recipient → parseRecipient py (emitted pgp' recipient kind mail) ≠ [])) ↔
    FitsHeader py recipient ∧ (kind = .response ∨ ascii "@axiom" <:+ recipient ∨
      pgp.keyserver recipient = none ∨
      ∃ cert, pgp.keyserver recipient = some cert ∧ pgp.encrypt cert mail = none) := by
  constructor
  · intro hall
    obtain ⟨r, hr⟩ := exists_packets hpy recipient
    have hother : (pgp.writing (0xC1 :: r)).WritesPackets := by
      intro cert text encrypted he
      obtain ⟨-, -, rfl⟩ := Option.map_eq_some_iff.1 he
      exact ⟨0xC1, r, rfl, by decide⟩
    have hread := (hall _ (pgp.outcomes_writing _) hother).1
    by_cases hplain : (pgp.lookupKeyBytes recipient).bind (fun cert => pgp.encrypt cert mail) = none
    · rw [emitted_plain ((pgp.outcomes_writing _).bind_eq_none.2 hplain) kind] at hread
      exact ⟨(parseRecipient_built_iff hpy hvalid h).1 hread, .inr (Pgp.bind_eq_none_iff.1 hplain)⟩
    · by_cases hkind : kind = .response
      · subst hkind
        exact ⟨(parseRecipient_built_iff hpy hvalid h).1 hread, .inl rfl⟩
      · obtain ⟨encrypted, henc⟩ := Option.ne_none_iff_exists'.1 hplain
        obtain ⟨cert, hcert, henc⟩ := Option.bind_eq_some_iff.1 henc
        have hfound : (pgp.writing (0xC1 :: r)).lookupKeyBytes recipient = some cert := hcert
        have hwritten : (pgp.writing (0xC1 :: r)).encrypt cert mail = some (0xC1 :: r) := by
          simp [Pgp.writing, henc]
        rw [emitted_encrypted hfound hkind hwritten] at hread
        exact absurd hread hr
  · rintro ⟨hfits, hkey⟩ pgp' hsame -
    have hmail : emitted pgp' recipient kind mail = mail := by
      rcases hkey with rfl | hkey
      · rfl
      · exact emitted_plain (hsame.bind_eq_none.2 (Pgp.bind_eq_none_iff.2 hkey)) kind
    have hread := (parseRecipient_built_iff hpy hvalid h).2 hfits
    rw [hmail, hread]
    exact ⟨rfl, fun hat => List.ne_nil_of_mem (mem_norm_at hpy hat)⟩

/-! ## ASCII texts -/

theorem asciiStr_readsHeaders : ReadsHeaders asciiStr where
  strip_subset := asciiStrip_subset
  mem_strip w b hb hlow _ := by
    have hws : ¬ isWs b := by
      simp only [isWs, Bool.or_eq_true, decide_eq_true_eq, Bool.and_eq_true]
      rintro (rfl | ⟨-, hle⟩)
      · exact absurd hlow (by decide)
      · exact absurd (UInt8.le_trans hlow hle) (by decide)
    exact (mem_asciiStrip hws).2 hb
  strip_asciiStrip := asciiStrip_asciiStrip
  strip_lines w hcr hlf := by
    obtain ⟨a, b, ha, hb, h⟩ := exists_asciiStrip w
    have hkeep : (asciiStrip w).filter (fun b => b ≠ CR ∧ b ≠ LF) = asciiStrip w := by
      refine List.filter_eq_self.2 fun x hx => ?_
      have hxcr : x ≠ CR := fun he => hcr (he ▸ hx)
      have hxlf : x ≠ LF := fun he => hlf (he ▸ hx)
      simp [hxcr, hxlf]
    have hfilter : w.filter (fun b => b ≠ CR ∧ b ≠ LF) = a.filter (fun b => b ≠ CR ∧ b ≠ LF) ++
        asciiStrip w ++ b.filter (fun b => b ≠ CR ∧ b ≠ LF) := by
      conv_lhs => rw [h, List.filter_append, List.filter_append, hkeep]
    show asciiStrip (w.filter fun b => b ≠ CR ∧ b ≠ LF) = asciiStrip w
    rw [hfilter, asciiStrip_append_ws fun x hx => hb x (List.mem_of_mem_filter hx),
      asciiStrip_ws_append fun x hx => ha x (List.mem_of_mem_filter hx), asciiStrip_asciiStrip]
  mem_lower w b hb := by
    have hlt : b < 65 := by
      revert b
      decide
    show b ∈ w.map lower ↔ b ∈ w
    simp [lower_eq_iff hlt]

def sampleStamp : Stamp := ⟨ascii "1", ascii "2", ascii "3", ascii "Thu, 01 Jan 1970 00:00:03 +0000"⟩

/-- A certificate for a receiver without a key. -/
theorem recipient_read_plain :
    parseRecipient asciiStr (emitted ⟨fun _ => none, fun _ _ => none⟩ (ascii "Bob@example.com")
      .certificate (buildVbcDeliveryEmail (ascii "Bob@example.com") (ascii "v@axiom") sampleStamp
        (ascii "oA=="))) = ascii "bob@example.com" :=
  have hfits : FitsHeader asciiStr (ascii "Bob@example.com") := ⟨by decide, by decide, by decide⟩
  have hbuilt : Built (ascii "Bob@example.com") (ascii "v@axiom") .certificate _ := .certificate
  ((recipient_read_iff asciiStr_readsHeaders (by decide) hbuilt ⟨fun _ => none, fun _ _ => none⟩).2
    ⟨hfits, Or.inr (Or.inr (Or.inl rfl))⟩ _ (.refl _) fun _ _ _ h => by cases h).1

/-- Everyone has a key, and an encrypted message begins like one to a public key. -/
def samplePgp : Pgp := ⟨fun _ => some (ascii "key"), fun _ _ => some [0xC1, 0x8C, 0x03, 0xD2]⟩

def sampleCertificate : Bytes :=
  buildVbcDeliveryEmail (ascii "bob@example.com") (ascii "v@axiom") sampleStamp (ascii "oA==")

/-- A certificate for a receiver with a key has no header left. -/
theorem recipient_read_encrypted :
    samplePgp.WritesPackets ∧
    Built (ascii "bob@example.com") (ascii "v@axiom") .certificate sampleCertificate ∧
    asciiStr.norm (ascii "bob@example.com") = ascii "bob@example.com" ∧
    parseRecipient asciiStr (emitted samplePgp (ascii "bob@example.com") .certificate
      sampleCertificate) = [] := by
  have hpackets : samplePgp.WritesPackets := fun _ _ _ h =>
    ⟨0xC1, [0x8C, 0x03, 0xD2], (Option.some.inj h).symm, by decide⟩
  refine ⟨hpackets, .certificate, by decide, ?_⟩
  rw [emitted_encrypted (by rfl) (by decide) rfl]
  rfl

end Seam
