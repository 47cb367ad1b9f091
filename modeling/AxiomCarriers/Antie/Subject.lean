import AxiomCarriers.Antie.Builders
import AxiomCarriers.Lib.Separator

/-!
# The grammar of subjects

`parse_subject` splits a subject at all its slashes and joins the pieces behind the second one
again.  It takes exactly the texts `AXIOM/t/r` without a slash in `t`, and gives `t` and the whole of
`r` back.  The Subject line of a reply is such a text for every type without a slash, so that the
type and the id which a reply is written with are the ones that are read (`parseSubject_grammar`).
-/

namespace Antie.Outgoing

open Bytes

/-- The value of the Subject field, as it stands in the first line with that name. -/
def subjectValue (mail : Bytes) : Option Bytes :=
  (splitCrlf mail).findSome? fun l => if ascii "Subject: " <+: l then some (l.drop 9) else none

theorem parseSubject_eq_ok_iff {subject messageType requestId : Bytes} :
    parseSubject subject = .ok (messageType, requestId) ↔
      47 ∉ messageType ∧ subject = ascii "AXIOM/" ++ messageType ++ 47 :: requestId := by
  have hname : ascii "AXIOM/" = ascii "AXIOM" ++ [47] := by decide
  constructor
  · intro h
    have hjoin : [47].intercalate (subject.splitOn 47) = subject := List.intercalate_splitOn 47
    unfold parseSubject at h
    split at h
    next first t part parts hsplit =>
      split_ifs at h with hfirst
      obtain ⟨rfl, rfl⟩ := Prod.mk.inj (Except.ok.inj h)
      have ht : t ∈ subject.splitOn 47 := by simp [hsplit]
      refine ⟨Separator.notMem_of_mem_splitOn ht, ?_⟩
      rw [hsplit, not_not.1 hfirst, List.intercalate_cons_cons, List.intercalate_cons_cons] at hjoin
      rw [← hjoin, hname]
      simp
    next => cases h
  · rintro ⟨htype, rfl⟩
    rw [hname]
    simpa using parseSubject_subject htype requestId

/-! ## The Subject line of a reply -/

theorem sanitizeHeader_of_unbroken {t : Bytes} (h : Unbroken t) : sanitizeHeader t = t := by
  apply List.filter_eq_self.2
  intro b hb
  rw [decide_eq_true_eq]
  exact ⟨fun he => h.1 (he ▸ hb), fun he => h.2 (he ▸ hb)⟩

/-- The lines above the Subject line have other names, whatever is written in them. -/
theorem subjectValue_build (recipient sender : Bytes) {subject : Bytes} (hsubject : Unbroken subject)
    (stamp : Stamp) (inReplyTo : Option Bytes) (encoded : Bytes) :
    subjectValue (build recipient sender subject stamp inReplyTo encoded) =
      some (ascii "AXIOM/" ++ subject) := by
  have hfrom : LF ∉ ascii "From: " ++ sanitizeHeader sender :=
    (unbroken_append ⟨by decide, by decide⟩ (unbroken_sanitizeHeader sender)).2
  have hto : LF ∉ ascii "To: " ++ sanitizeHeader recipient :=
    (unbroken_append ⟨by decide, by decide⟩ (unbroken_sanitizeHeader recipient)).2
  have hline : LF ∉ ascii "Subject: AXIOM/" ++ subject :=
    (unbroken_append ⟨by decide, by decide⟩ hsubject).2
  rw [subjectValue, build, splitCrlf_piece (piece_of_lf hfrom), splitCrlf_piece (piece_of_lf hto),
    splitCrlf_piece (piece_of_lf hline)]
  simp [ascii]

/-- A subject is taken if and only if it is `AXIOM/t/r` with no slash in `t`, and then `t` and `r` are
what it is read as, with every slash of `r`.  So is the subject of a reply read as the type and the
id that the reply was written with. -/
theorem parseSubject_grammar :
    (∀ subject messageType requestId, parseSubject subject = .ok (messageType, requestId) ↔
      47 ∉ messageType ∧ subject = ascii "AXIOM/" ++ messageType ++ 47 :: requestId) ∧
    ∀ recipient sender messageType requestId stamp inReplyTo encoded mail,
      buildResponse recipient sender messageType requestId stamp inReplyTo encoded = .ok mail →
      47 ∉ messageType → Unbroken messageType → Unbroken requestId →
      ∃ value, subjectValue mail = some value ∧
        parseSubject value = .ok (messageType, requestId) := by
  refine ⟨fun _ _ _ => parseSubject_eq_ok_iff, ?_⟩
  intro recipient sender messageType requestId stamp inReplyTo encoded mail h hslash htype hid
  have hsubject : Unbroken (messageType ++ 47 :: requestId) :=
    unbroken_append htype (unbroken_append (s := [47]) ⟨by decide, by decide⟩ hid)
  refine ⟨_, ?_, parseSubject_eq_ok_iff.2 ⟨hslash, rfl⟩⟩
  rw [(buildResponse_ok h).2.2, sanitizeHeader_of_unbroken htype, sanitizeHeader_of_unbroken hid,
    subjectValue_build _ _ hsubject, List.append_assoc]

/-- A request id with slashes at its end and side by side. -/
theorem parseSubject_grammar_reply : ∃ mail value,
    buildResponse (ascii "b@axiom") (ascii "v@axiom") (ascii "witness") (ascii "a//b/") sampleStamp
      none [] = .ok mail ∧
    subjectValue mail = some value ∧
    parseSubject value = .ok (ascii "witness", ascii "a//b/") := by
  have hrun : ∃ mail, buildResponse (ascii "b@axiom") (ascii "v@axiom") (ascii "witness")
      (ascii "a//b/") sampleStamp none [] = .ok mail := ⟨_, rfl⟩
  obtain ⟨mail, hmail⟩ := hrun
  obtain ⟨value, hvalue, hparse⟩ := parseSubject_grammar.2 _ _ _ _ _ _ _ _ hmail (by decide)
    ⟨by decide, by decide⟩ ⟨by decide, by decide⟩
  exact ⟨mail, value, hmail, hvalue, hparse⟩

end Antie.Outgoing
