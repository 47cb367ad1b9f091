import AxiomCarriers.Fatmama.Addresses

/-!
# The recipient of a mail in an outbox

A mail that ANTIE has written names its recipient in the To: header alone.  `parse_recipient` looks
for it in the first 200 lines; `parseRecipient_second` says what it reads of a header on the second
line.
-/

namespace Fatmama

open Bytes Utf8

/-- `v[v.find("<") + 1:v.find(">")]`. -/
def bracketed (v : Bytes) : Bytes := ((v.takeWhile (· ≠ 62)).dropWhile (· ≠ 60)).tail

/-- What a To: line says. -/
def toValue (py : Str) (line : Bytes) : Bytes :=
  let v := lossy (asciiStrip (line.dropWhile (· ≠ 58)).tail)
  py.norm (if 60 ∈ v ∧ 62 ∈ v then bracketed v else v)

/-- The loop of `parse_recipient`. -/
def recipientOf (py : Str) : List Bytes → Bytes
  | [] => []
  | line :: rest =>
    if ascii "to:" <+: (asciiStrip line).map lower then toValue py line
    else if asciiStrip line = [] then []
    else recipientOf py rest

/-- `parse_recipient`. -/
def parseRecipient (py : Str) (raw : Bytes) : Bytes := recipientOf py ((raw.splitOn LF).take 200)

theorem valid_asciiStrip {w : Bytes} (h : Valid w) : Valid (asciiStrip w) := by
  have hstart : Valid (w.dropWhile isWs) := by
    induction w with
    | nil => exact h
    | cons b w ih =>
      by_cases hb : isWs b
      · rw [List.dropWhile_cons_of_pos hb]
        exact ih ((valid_append_ascii [] (isWs_lt hb) w).1 h).2
      · rwa [List.dropWhile_cons_of_neg hb]
  unfold asciiStrip
  generalize w.dropWhile isWs = v at hstart
  induction v using List.reverseRecOn with
  | nil => exact hstart
  | append_singleton v b ih =>
    by_cases hb : isWs b
    · rw [List.rdropWhile_concat_pos _ _ _ hb]
      exact ih ((valid_append_ascii v (isWs_lt hb) []).1 hstart).1
    · rwa [List.rdropWhile_concat_neg _ _ _ hb]

/-! ## A header on the second line -/

theorem toValue_line {value : Bytes} (h : Valid value) (py : Str) :
    toValue py (ascii "To: " ++ value ++ [CR]) =
      py.norm (if 60 ∈ asciiStrip value ∧ 62 ∈ asciiStrip value then bracketed (asciiStrip value)
        else asciiStrip value) := by
  have hvalue : asciiStrip (((ascii "To: " ++ value ++ [CR]).dropWhile (· ≠ 58)).tail) =
      asciiStrip value :=
    (asciiStrip_cons (by decide) (value ++ [CR])).trans (asciiStrip_concat (by decide) value)
  rw [toValue, hvalue, lossy_eq_self_iff.2 (valid_asciiStrip h)]

/-- The To: header of a mail whose first line is another one. -/
theorem parseRecipient_second {sender value : Bytes} (hsender : LF ∉ sender) (hvalue : LF ∉ value)
    (hvalid : Valid value) (py : Str) (rest : Bytes) :
    parseRecipient py (ascii "From: " ++ sender ++ crlf ++ (ascii "To: " ++ value ++ crlf ++ rest)) =
      py.norm (if 60 ∈ asciiStrip value ∧ 62 ∈ asciiStrip value then bracketed (asciiStrip value)
        else asciiStrip value) := by
  have hfirst : LF ∉ ascii "From: " ++ sender ++ [CR] := by
    simp only [List.mem_append, not_or]
    exact ⟨⟨by decide, hsender⟩, by decide⟩
  have hsecond : LF ∉ ascii "To: " ++ value ++ [CR] := by
    simp only [List.mem_append, not_or]
    exact ⟨⟨by decide, hvalue⟩, by decide⟩
  have hsplit : (ascii "From: " ++ sender ++ crlf ++ (ascii "To: " ++ value ++ crlf ++ rest)).splitOn LF =
      (ascii "From: " ++ sender ++ [CR]) :: (ascii "To: " ++ value ++ [CR]) :: rest.splitOn LF := by
    have hassoc : ascii "From: " ++ sender ++ crlf ++ (ascii "To: " ++ value ++ crlf ++ rest) =
        (ascii "From: " ++ sender ++ [CR]) ++ LF :: ((ascii "To: " ++ value ++ [CR]) ++ LF :: rest) := by
      simp
    rw [hassoc, List.splitOn_append_cons_self_of_not_mem hfirst,
      List.splitOn_append_cons_self_of_not_mem hsecond]
  have hfrom : asciiStrip (ascii "From: " ++ sender ++ [CR]) =
      ascii "From:" ++ (32 :: (sender ++ [CR])).rdropWhile isWs := by
    rw [← asciiStrip_append (by decide) (by decide)]
    exact congrArg asciiStrip (by simp [ascii])
  have hto : asciiStrip (ascii "To: " ++ value ++ [CR]) =
      ascii "To:" ++ (32 :: (value ++ [CR])).rdropWhile isWs := by
    rw [← asciiStrip_append (by decide) (by decide)]
    exact congrArg asciiStrip (by simp [ascii])
  have hnot : ¬ ascii "to:" <+: (asciiStrip (ascii "From: " ++ sender ++ [CR])).map lower := by
    rw [hfrom, List.map_append]
    simp [ascii, lower]
  have his : ascii "to:" <+: (asciiStrip (ascii "To: " ++ value ++ [CR])).map lower := by
    rw [hto, List.map_append]
    exact List.prefix_append (ascii "to:") _
  have hne : asciiStrip (ascii "From: " ++ sender ++ [CR]) ≠ [] := by
    rw [hfrom]
    exact List.append_ne_nil_of_left_ne_nil (by decide) _
  rw [parseRecipient, hsplit, List.take_succ_cons, List.take_succ_cons, recipientOf, if_neg hnot,
    if_neg hne, recipientOf, if_pos his, toValue_line hvalid]

end Fatmama
