import AxiomCarriers.Antie.Refusal
import AxiomCarriers.Seam.Pickup

/-!
# The files of a reply

`send_response` deposits a reply in the directory of the session that its message names.  The path
has three parts: the outbox of the row that matches the custody header, the id in that header, and a
name made of the request id.  The last two come from the client, and each is checked in its own
place.

No reply writes outside the directory of its session, and where the row suppresses mail none goes to
the outbound carrier (`custody_stays`).
-/

namespace Seam.SessionFiles

open Bytes Antie Antie.Gateway
open Antie.Custody (unsafeName replyName)
open Fatmama (Path)
open Pickup (IsName join join_name)

/-! ## Depositing -/

/-- What `send_response` does to the disk, and that it hands the reply to the outbound carrier. -/
inductive Op
  /-- `UncleSink::tee`. -/
  | tee (correlate : Bytes)
  /-- `create_dir_all`. -/
  | mkdirs (dir : Path)
  /-- The file is created and written. -/
  | write (file : Path)
  | rename (source target : Path) (ok : Bool)
  | hand (receiver : Bytes)
  deriving DecidableEq

/-- The working directory, what the calls of `deposit` come to, and the text for a name it
refuses. -/
structure Disk where
  cwd : Path
  mkdirs : Except Bytes Unit
  write : Except Bytes Unit
  rename : Except Bytes Unit
  refusal : Bytes → Bytes

/-- `custody::deposit`. -/
def deposit (disk : Disk) (dir : Path) (name : Bytes) : List Op × Except Bytes Path :=
  if unsafeName name then ([], .error (disk.refusal name))
  else
    let tmpDir := join dir (ascii "tmp")
    let tmpPath := join tmpDir name
    let finalPath := join dir name
    match disk.mkdirs with
    | .error e => ([.mkdirs tmpDir], .error e)
    | .ok () =>
      match disk.write with
      | .error e => ([.mkdirs tmpDir, .write tmpPath], .error e)
      | .ok () =>
        match disk.rename with
        | .error e => ([.mkdirs tmpDir, .write tmpPath, .rename tmpPath finalPath false], .error e)
        | .ok () => ([.mkdirs tmpDir, .write tmpPath, .rename tmpPath finalPath true], .ok finalPath)

def mail (w : Outside) (receiver : Bytes) : List Op × Except AntieError Unit :=
  ([.hand receiver], w.send receiver)

/-- The custody routing of a reply, and its mail. -/
def route (w : Outside) (disk : Disk) (original : Email) (payload : ResponsePayload) :
    List Op × Except AntieError Unit :=
  match original.custody with
  | none => mail w original.sender
  | some (header, id) =>
    if stampDisagrees w header original.sender then
      ([], .error (.invalidPayload (ascii "custody: " ++ header ++
        ascii " is the normal-wallet stamp; sender " ++ original.sender ++
        utf8 " is a dev wallet — stamp and address disagree")))
    else match custodyRoute w header with
      | none => mail w original.sender
      | some row =>
        let dir := join (join disk.cwd row.outbox) id
        match deposit disk dir (replyName payload.requestId) with
        | (ops, .ok _) =>
          if row.suppressEmail then (ops, .ok ())
          else (ops ++ (mail w original.sender).1, (mail w original.sender).2)
        | (ops, .error e) =>
          if row.suppressEmail then
            (ops, .error (.maildirError
              (ascii "custody deposit failed for " ++ header ++ ascii ": " ++ e)))
          else (ops ++ (mail w original.sender).1, (mail w original.sender).2)

def sendResponse (w : Outside) (disk : Disk) (original : Email) (payload : ResponsePayload) :
    List Op × Except AntieError Unit :=
  match (validateEmailAddr original.sender).bind fun _ => validateEmailAddr w.identity with
  | .error e => ([], .error e)
  | .ok () =>
    let tee := if w.uncleSink then original.uncleCorrelate.toList.map Op.tee else []
    (tee ++ (route w disk original payload).1, (route w disk original payload).2)

/-- The replies to a message: that of `process_message`, and that of a validator that is busy, which
reads the message without its decryptor. -/
inductive Replies (w : Outside) (limiter : RateLimiter) (raw : Bytes) :
    Email → ResponsePayload → Prop
  | processed {email : Email} (size : ¬ maxMessageBytes < raw.length)
      (vbc : ¬ (w.vbcDelivery raw).isSome)
      (parse : parseEmailOutcome w.parser w.decode raw = .ok email)
      (band : ¬ answersOutOfBand email) :
      Replies w limiter raw email (replyTo w limiter email)
  | busy {email : Email} (decode : Bytes → Bytes → Decoded) (avgMs : ℕ)
      (parse : parseEmailOutcome w.parser decode raw = .ok email) :
      Replies w limiter raw email (busyReply email avgMs)

/-! ## One deposit -/

def Op.touches : Op → Bool
  | .mkdirs _ | .write _ | .rename _ _ _ => true
  | .tee _ | .hand _ => false

/-- A whole deposit: the directory, the file in its `tmp`, and the file in its place. -/
def writes (dir : Path) (name : Bytes) (ok : Bool) : List Op :=
  [.mkdirs (dir ++ [ascii "tmp"]), .write (dir ++ [ascii "tmp", name]),
    .rename (dir ++ [ascii "tmp", name]) (dir ++ [name]) ok]

variable {w : Outside} {disk : Disk} {original : Email} {payload : ResponsePayload}

/-- A name that `deposit` takes is the name of a file. -/
theorem isName_replyName {requestId : Bytes} (h : ¬ unsafeName (replyName requestId)) :
    IsName (replyName requestId) := by
  have hlength : 5 ≤ (replyName requestId).length := by
    rw [replyName, List.length_append]
    exact Nat.le_add_left _ _
  have hlong : ∀ v : Bytes, v.length < 5 → replyName requestId ≠ v := by
    rintro v hv rfl
    omega
  simp only [unsafeName, Bool.or_eq_true, decide_eq_true_eq, not_or] at h
  exact ⟨h.1.1.1, h.1.1.2, hlong _ (by decide), hlong _ (by decide)⟩

theorem deposit_refuses {dir : Path} {name : Bytes} (h : unsafeName name) :
    deposit disk dir name = ([], .error (disk.refusal name)) := if_pos h

theorem deposit_isPrefix (disk : Disk) (dir : Path) {name : Bytes} (h : IsName name) :
    ∃ ok, (deposit disk dir name).1 <+: writes dir name ok := by
  have htmp : IsName (ascii "tmp") := by unfold IsName; decide
  simp only [deposit, join_name htmp, join_name h, List.append_assoc, List.singleton_append]
  split
  · exact ⟨true, List.nil_prefix⟩
  · split
    · exact ⟨true, ⟨_, rfl⟩⟩
    · split
      · exact ⟨true, ⟨_, rfl⟩⟩
      · split
        · exact ⟨false, List.prefix_refl _⟩
        · exact ⟨true, List.prefix_refl _⟩

theorem deposit_touches (disk : Disk) (dir : Path) (requestId : Bytes) :
    ∀ op ∈ (deposit disk dir (replyName requestId)).1, op.touches := by
  by_cases hname : unsafeName (replyName requestId)
  · simp [deposit_refuses hname]
  · obtain ⟨ok, hpart⟩ := deposit_isPrefix disk dir (isName_replyName hname)
    have hwrites : ∀ op ∈ writes dir (replyName requestId) ok, op.touches := by
      simp [writes, Op.touches]
    exact fun op hop => hwrites op (hpart.subset hop)

/-- What routing does: nothing, the mail alone where no row matches, or the deposit of the matching
row and behind it the mail that the row does not suppress. -/
theorem route_cases (w : Outside) (disk : Disk) (original : Email) (payload : ResponsePayload) :
    (route w disk original payload).1 = [] ∨
    ((route w disk original payload).1 = [.hand original.sender] ∧
      ∀ header id, original.custody = some (header, id) → custodyRoute w header = none) ∨
    ∃ header id row, original.custody = some (header, id) ∧ custodyRoute w header = some row ∧
      (route w disk original payload).1 =
        (deposit disk (join (join disk.cwd row.outbox) id) (replyName payload.requestId)).1 ++
          if row.suppressEmail then [] else [.hand original.sender] := by
  unfold route
  cases hcustody : original.custody with
  | none => exact Or.inr (Or.inl ⟨rfl, by simp⟩)
  | some stamp =>
    obtain ⟨header, id⟩ := stamp
    dsimp only
    by_cases hstamp : stampDisagrees w header original.sender
    · exact Or.inl (by rw [if_pos hstamp])
    · rw [if_neg hstamp]
      cases hroute : custodyRoute w header with
      | none =>
        refine Or.inr (Or.inl ⟨rfl, ?_⟩)
        rintro _ _ ⟨⟩
        exact hroute
      | some row =>
        refine Or.inr (Or.inr ⟨header, id, row, rfl, hroute, ?_⟩)
        dsimp only
        split <;> split_ifs <;> simp_all [mail]

/-! ## The session of a message -/

theorem isHex_lower {b : UInt8} (h : isHexDigit b) : Tot.isHex (lower b) := by
  have all : ∀ m : BitVec 8,
      isHexDigit (UInt8.ofBitVec m) → Tot.isHex (lower (UInt8.ofBitVec m)) := by
    decide
  exact all b.toBitVec h

/-- The id in a custody header names a session. -/
theorem custody_session {m : Mail} {header id : Bytes} (h : custody m = some (header, id)) :
    id.length = 64 ∧ ∀ b ∈ id, Tot.isHex b := by
  obtain ⟨name, -, hname⟩ := List.exists_of_findSome?_eq_some h
  obtain ⟨raw, hraw, he⟩ := Option.map_eq_some_iff.1 hname
  obtain ⟨-, rfl⟩ := Prod.mk.inj he
  obtain ⟨text, -, hid⟩ := Option.bind_eq_some_iff.1 hraw
  rw [headerId] at hid
  split_ifs at hid with hdigits
  obtain rfl := Option.some.inj hid
  refine ⟨by rw [List.length_map]; exact hdigits.1, fun b hb => ?_⟩
  obtain ⟨d, hd, rfl⟩ := List.mem_map.1 hb
  exact isHex_lower (List.all_eq_true.1 hdigits.2 d hd)

theorem parseEmailOutcome_custody {parser : Bytes → Option Mail} {decode : Bytes → Bytes → Decoded}
    {raw : Bytes} {email : Email} (h : parseEmailOutcome parser decode raw = .ok email) :
    ∃ m, parser raw = some m ∧ email.custody = custody m := by
  unfold parseEmailOutcome at h
  split at h
  · cases h
  next m hm =>
    split at h
    · cases h
    · split at h
      · cases h
      · cases h
      · obtain rfl := ParseOutcome.ok.inj h
        exact ⟨m, hm, rfl⟩

theorem Replies.session {limiter : RateLimiter} {raw : Bytes} {email : Email}
    (h : Replies w limiter raw email payload) {header id : Bytes}
    (hid : email.custody = some (header, id)) :
    id.length = 64 ∧ ∀ b ∈ id, Tot.isHex b := by
  obtain ⟨m, -, hm⟩ : ∃ m, w.parser raw = some m ∧ email.custody = custody m := by
    cases h with
    | processed size vbc parse band => exact parseEmailOutcome_custody parse
    | busy decode avgMs parse => exact parseEmailOutcome_custody parse
  exact custody_session (hm.symm.trans hid)

/-! ## The files of a reply -/

/-- The reply is not sent, or what is done for it is its routing, behind a copy. -/
theorem sendResponse_cases (w : Outside) (disk : Disk) (original : Email)
    (payload : ResponsePayload) :
    (sendResponse w disk original payload).1 = [] ∨ ∃ correlates : List Bytes,
      (sendResponse w disk original payload).1 =
        correlates.map Op.tee ++ (route w disk original payload).1 := by
  unfold sendResponse
  split
  · exact Or.inl rfl
  · dsimp only
    split_ifs
    · exact Or.inr ⟨original.uncleCorrelate.toList, rfl⟩
    · exact Or.inr ⟨[], rfl⟩

theorem sendResponse_touches (w : Outside) (disk : Disk) (original : Email)
    (payload : ResponsePayload) :
    (sendResponse w disk original payload).1.filter Op.touches = [] ∨
      (sendResponse w disk original payload).1.filter Op.touches =
        (route w disk original payload).1.filter Op.touches := by
  rcases sendResponse_cases w disk original payload with h | ⟨correlates, h⟩
  · exact Or.inl (by rw [h, List.filter_nil])
  · refine Or.inr ?_
    have htee : (correlates.map Op.tee).filter Op.touches = [] := by simp [Op.touches]
    rw [h, List.filter_append, htee, List.nil_append]

theorem sendResponse_hand {receiver : Bytes}
    (h : .hand receiver ∈ (sendResponse w disk original payload).1) :
    .hand receiver ∈ (route w disk original payload).1 := by
  rcases sendResponse_cases w disk original payload with hnone | ⟨correlates, hops⟩
  · rw [hnone] at h
    cases h
  · rw [hops] at h
    exact (List.mem_append.1 h).resolve_left (by simp)

/-- Only the deposit of a matching row touches the disk. -/
theorem route_touches (w : Outside) (disk : Disk) (original : Email) (payload : ResponsePayload) :
    (route w disk original payload).1.filter Op.touches = [] ∨
    ∃ header id row, original.custody = some (header, id) ∧ custodyRoute w header = some row ∧
      (route w disk original payload).1.filter Op.touches =
        (deposit disk (join (join disk.cwd row.outbox) id) (replyName payload.requestId)).1 := by
  rcases route_cases w disk original payload with h | ⟨h, -⟩ | ⟨header, id, row, hcustody, hrow, h⟩
  · exact Or.inl (by rw [h, List.filter_nil])
  · exact Or.inl (by rw [h]; rfl)
  · refine Or.inr ⟨header, id, row, hcustody, hrow, ?_⟩
    rw [h, List.filter_append, List.filter_eq_self.2 (deposit_touches disk _ _)]
    split_ifs <;> simp [Op.touches]

/-- A session id is the name of a directory. -/
theorem isName_session {id : Bytes} (hlength : id.length = 64) (hhex : ∀ b ∈ id, Tot.isHex b) :
    IsName id := by
  have hlong : ∀ v : Bytes, v.length < 64 → id ≠ v := by
    rintro v hv rfl
    omega
  exact ⟨hlong _ (by decide), fun h => absurd (hhex 47 h) (by decide), hlong _ (by decide),
    hlong _ (by decide)⟩

theorem reply_files (disk : Disk) {limiter : RateLimiter} {raw : Bytes} {email : Email}
    (h : Replies w limiter raw email payload) (hname : ¬ unsafeName (replyName payload.requestId)) :
    (sendResponse w disk email payload).1.filter Op.touches = [] ∨
      ∃ header id row ok, email.custody = some (header, id) ∧ custodyRoute w header = some row ∧
        id.length = 64 ∧ (∀ b ∈ id, Tot.isHex b) ∧
        (sendResponse w disk email payload).1.filter Op.touches <+:
          writes (join disk.cwd row.outbox ++ [id]) (replyName payload.requestId) ok := by
  rcases sendResponse_touches w disk email payload with hnone | hroute
  · exact Or.inl hnone
  · rcases route_touches w disk email payload with hnone | ⟨header, id, row, hcustody, hrow, hops⟩
    · exact Or.inl (hroute.trans hnone)
    · obtain ⟨hlength, hhex⟩ := h.session hcustody
      obtain ⟨ok, hpart⟩ :=
        deposit_isPrefix disk (join disk.cwd row.outbox ++ [id]) (isName_replyName hname)
      refine Or.inr ⟨header, id, row, ok, hcustody, hrow, hlength, hhex, ?_⟩
      rw [hroute, hops, join_name (isName_session hlength hhex)]
      exact hpart

theorem reply_refuses (w : Outside) (disk : Disk) (email : Email)
    (hname : unsafeName (replyName payload.requestId)) :
    (sendResponse w disk email payload).1.filter Op.touches = [] := by
  rcases sendResponse_touches w disk email payload with hnone | hroute
  · exact hnone
  · rcases route_touches w disk email payload with hnone | ⟨header, id, row, -, -, hops⟩
    · rw [hroute, hnone]
    · rw [hroute, hops, deposit_refuses hname]

theorem reply_suppressed (disk : Disk) (payload : ResponsePayload) {email : Email}
    {header id : Bytes} {row : CustodyRoute} (hcustody : email.custody = some (header, id))
    (hrow : custodyRoute w header = some row) (hsup : row.suppressEmail) (receiver : Bytes) :
    .hand receiver ∉ (sendResponse w disk email payload).1 := by
  intro hmem
  have hmem := sendResponse_hand hmem
  rcases route_cases w disk email payload with
    hnone | ⟨-, hno⟩ | ⟨header', id', row', hcustody', hrow', hops⟩
  · rw [hnone] at hmem
    cases hmem
  · rw [hno header id hcustody] at hrow
    cases hrow
  · obtain ⟨rfl, rfl⟩ := Prod.mk.inj (Option.some.inj (hcustody.symm.trans hcustody'))
    obtain rfl := Option.some.inj (hrow.symm.trans hrow')
    rw [hops, if_pos hsup, List.append_nil] at hmem
    exact absurd (deposit_touches disk _ _ _ hmem) Bool.false_ne_true

/-- Whatever the disk does, a reply to a message touches nothing on it, or makes one deposit as far
as that comes: a file in `tmp` of the session's directory, and from there a file in the directory
itself.  The directory is that of 64 hexadecimal digits in the outbox of the matching row.  An
unsafe request id touches nothing, and a row that suppresses mail keeps the reply from the outbound
carrier. -/
theorem custody_stays (disk : Disk) {limiter : RateLimiter} {raw : Bytes} {email : Email}
    (h : Replies w limiter raw email payload) :
    ((sendResponse w disk email payload).1.filter Op.touches = [] ∨
      ∃ header id row ok, email.custody = some (header, id) ∧ custodyRoute w header = some row ∧
        id.length = 64 ∧ (∀ b ∈ id, Tot.isHex b) ∧ IsName (replyName payload.requestId) ∧
        (sendResponse w disk email payload).1.filter Op.touches <+:
          writes (join disk.cwd row.outbox ++ [id]) (replyName payload.requestId) ok) ∧
    (unsafeName (replyName payload.requestId) →
      (sendResponse w disk email payload).1.filter Op.touches = []) ∧
    ∀ header id row, email.custody = some (header, id) → custodyRoute w header = some row →
      row.suppressEmail → ∀ receiver, .hand receiver ∉ (sendResponse w disk email payload).1 := by
  refine ⟨?_, reply_refuses w disk email, fun header id row => reply_suppressed disk payload⟩
  by_cases hname : unsafeName (replyName payload.requestId)
  · exact Or.inl (reply_refuses w disk email hname)
  · rcases reply_files disk h hname with
      hnone | ⟨header, id, row, ok, hcustody, hrow, hlength, hhex, hops⟩
    · exact Or.inl hnone
    · exact Or.inr
        ⟨header, id, row, ok, hcustody, hrow, hlength, hhex, isName_replyName hname, hops⟩

/-- A message in a session. -/
def sessionMail : Bytes :=
  ascii "From: a@axiom\r\nX-TOT-Session: " ++ List.replicate 64 48 ++
    ascii "\r\nSubject: AXIOM/witness/7\r\n\r\n"

def goodDisk : Disk := ⟨[ascii "run"], .ok (), .ok (), .ok (), id⟩

/-- The reply of a busy validator to a message in a session is deposited and not mailed. -/
theorem custody_stays_busy :
    ∃ email, Replies sampleGateway [] sessionMail email (busyReply email 9) ∧
      (sendResponse sampleGateway goodDisk email (busyReply email 9)).1.filter Op.touches ≠ [] ∧
      ∀ receiver,
        .hand receiver ∉ (sendResponse sampleGateway goodDisk email (busyReply email 9)).1 := by
  obtain ⟨email, hparse, hcustody, htouch⟩ : ∃ email,
      parseEmailOutcome sampleGateway.parser sampleGateway.decode sessionMail = .ok email ∧
      email.custody = some (ascii "X-TOT-Session", List.replicate 64 48) ∧
      (sendResponse sampleGateway goodDisk email (busyReply email 9)).1.filter Op.touches ≠ [] :=
    ParseOutcome.exists_of_decide (by decide +kernel)
  have h : Replies sampleGateway [] sessionMail email (busyReply email 9) :=
    .busy sampleGateway.decode 9 hparse
  exact ⟨email, h, htouch, (custody_stays goodDisk h).2.2 _ _ _ hcustody rfl rfl⟩

/-! ## As the gateway counts it -/

/-- No call of `deposit` fails. -/
def Disk.deposits (disk : Disk) : Bool := disk.mkdirs.isOk && disk.write.isOk && disk.rename.isOk

/-- The effect of the gateway that a step comes to: a deposit once the file is renamed, a reply once
the carrier has taken it. -/
def Op.effect (w : Outside) (original : Email) (payload : ResponsePayload) : Op → Option Effect
  | .tee correlate => some (.tee correlate)
  | .rename _ _ true =>
    original.custody.bind fun stamp =>
      (custodyRoute w stamp.1).map fun row =>
        .deposit row.outbox stamp.2 (replyName payload.requestId)
  | .hand receiver => if (w.send receiver).isOk then some (.reply receiver) else none
  | _ => none

theorem mail_effects (w : Outside) (original : Email) (payload : ResponsePayload)
    (receiver : Bytes) :
    (mail w receiver).1.filterMap (Op.effect w original payload) = (mailReply w receiver).1 := by
  rw [mail, mailReply, List.filterMap_cons, Op.effect]
  cases w.send receiver <;> rfl

/-- A deposit counts once its file is in place. -/
theorem deposit_effects {header id : Bytes} {row : CustodyRoute} (disk : Disk) (dir : Path)
    (payload : ResponsePayload)
    (hcustody : original.custody = some (header, id)) (hrow : custodyRoute w header = some row) :
    (¬ unsafeName (replyName payload.requestId) ∧ disk.deposits ∧
      (∃ file, (deposit disk dir (replyName payload.requestId)).2 = .ok file) ∧
      (deposit disk dir (replyName payload.requestId)).1.filterMap (Op.effect w original payload) =
        [.deposit row.outbox id (replyName payload.requestId)]) ∨
    (¬ (¬ unsafeName (replyName payload.requestId) ∧ disk.deposits) ∧
      (∃ e, (deposit disk dir (replyName payload.requestId)).2 = .error e) ∧
      (deposit disk dir (replyName payload.requestId)).1.filterMap
        (Op.effect w original payload) = []) := by
  by_cases hname : unsafeName (replyName payload.requestId)
  · exact Or.inr ⟨fun h => h.1 hname, by rw [deposit_refuses hname]; exact ⟨⟨_, rfl⟩, rfl⟩⟩
  · have hcounted (source target : Path) :
        Op.effect w original payload (.rename source target true) =
          some (.deposit row.outbox id (replyName payload.requestId)) := by
      rw [Op.effect, hcustody, Option.bind_some, hrow, Option.map_some]
    simp only [deposit, if_neg hname, Disk.deposits]
    cases disk.mkdirs with
    | error e => exact Or.inr ⟨by simp [Except.isOk, Except.toBool], ⟨e, rfl⟩, rfl⟩
    | ok =>
      cases disk.write with
      | error e => exact Or.inr ⟨by simp [Except.isOk, Except.toBool], ⟨e, rfl⟩, rfl⟩
      | ok =>
        cases disk.rename with
        | error e => exact Or.inr ⟨by simp [Except.isOk, Except.toBool], ⟨e, rfl⟩, rfl⟩
        | ok =>
          refine Or.inl ⟨hname, rfl, ⟨_, rfl⟩, ?_⟩
          rw [List.filterMap_cons_none rfl, List.filterMap_cons_none rfl,
            List.filterMap_cons_some (hcounted _ _), List.filterMap_nil]

theorem route_effects {disk : Disk} (hdisk : w.writeCustody = disk.deposits) (original : Email)
    (payload : ResponsePayload) :
    (routeReply w original payload).1 =
      (route w disk original payload).1.filterMap (Op.effect w original payload) := by
  have hmail := mail_effects w original payload original.sender
  unfold routeReply route
  cases hcustody : original.custody with
  | none => exact hmail.symm
  | some stamp =>
    obtain ⟨header, id⟩ := stamp
    dsimp only
    by_cases hstamp : stampDisagrees w header original.sender
    · rw [if_pos hstamp, if_pos hstamp, List.filterMap_nil]
    · rw [if_neg hstamp, if_neg hstamp]
      cases hrow : custodyRoute w header with
      | none => exact hmail.symm
      | some row =>
        dsimp only
        rcases deposit_effects disk (join (join disk.cwd row.outbox) id) payload hcustody hrow with
          ⟨hname, hok, ⟨file, hfile⟩, hops⟩ | ⟨hno, ⟨e, he⟩, hops⟩
        · rw [if_pos ⟨hname, hdisk.trans hok⟩]
          generalize
            deposit disk (join (join disk.cwd row.outbox) id) (replyName payload.requestId) = made
            at hfile hops ⊢
          obtain ⟨ops, result⟩ := made
          obtain rfl : result = .ok file := hfile
          split_ifs
          · exact hops.symm
          · rw [List.filterMap_append, hops, hmail]
            rfl
        · rw [if_neg (hdisk ▸ hno)]
          generalize
            deposit disk (join (join disk.cwd row.outbox) id) (replyName payload.requestId) = made
            at he hops ⊢
          obtain ⟨ops, result⟩ := made
          obtain rfl : result = .error e := he
          split_ifs
          · exact hops.symm
          · rw [List.filterMap_append, hops, hmail]
            rfl

/-- The effects that the gateway counts are those of the steps. -/
theorem sendResponse_effects {disk : Disk} (hdisk : w.writeCustody = disk.deposits)
    (original : Email) (payload : ResponsePayload) :
    (Gateway.sendResponse w original payload).1 =
      (sendResponse w disk original payload).1.filterMap (Op.effect w original payload) := by
  unfold Gateway.sendResponse sendResponse
  cases (validateEmailAddr original.sender).bind fun _ => validateEmailAddr w.identity with
  | error e => rfl
  | ok =>
    have htee : ∀ correlates : List Bytes,
        (correlates.map Op.tee).filterMap (Op.effect w original payload) =
          correlates.map Effect.tee := fun correlates => by
      rw [List.filterMap_map]
      exact congrFun List.filterMap_eq_map correlates
    dsimp only
    rw [List.filterMap_append, ← route_effects hdisk]
    split_ifs
    · rw [htee]
    · rfl

end Seam.SessionFiles
