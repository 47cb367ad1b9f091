import AxiomCarriers.Antie.Email
import AxiomCarriers.Lib.Sweep
import AxiomCarriers.Tot.Replies

/-!
# From a deposit to the session

ANTIE deposits a reply under the name that `custody::deposit` accepts, and TOT's `pump_replies`
pushes the files that have the extension `cbor`.  The two rules on names differ in one name: the
reply to the empty request id is deposited as `.cbor`, which has no extension, and stays in the
directory (`deposit_pumped_iff`).
-/

namespace Seam.Pump

open Antie.Custody Tot.Replies Bytes Sweeps

/-! ## The deposit -/

/-- A deposit all of whose steps succeed, with no other writer in between. -/
def depositNow {β : Type} (name : Name) (content : β) (d : Option (Dir β)) : Option (Dir β) :=
  (deposit name content).bind fun j =>
    (j.advance d).bind fun made => made.2.bind fun j =>
      (j.advance (some made.1)).bind fun written => written.2.bind fun j =>
        (j.advance (some written.1)).map (·.1)

theorem depositNow_files {β : Type} {name : Name} {content : β} {d : Option (Dir β)} {d' : Dir β}
    (h : depositNow name content d = some d') : d'.files = Table.put (files d) name content := by
  have hsafe : unsafeName name = false := by
    by_contra hunsafe
    rw [depositNow, deposit, if_pos (eq_true_of_ne_false hunsafe)] at h
    cases h
  have hfiles : (d.getD (Dir.empty β)).files = files d := by cases d <;> rfl
  rw [depositNow, deposit, if_neg (ne_true_of_eq_false hsafe)] at h
  -- after `mkdir` and `write` the content is in `tmp`, where `rename` finds it
  simp only [Option.bind_some, Job.advance, Table.get_put_self, Option.map_some,
    Option.some.injEq] at h
  rw [← h, ← hfiles]

/-! ## The pump -/

/-- What the calls of a pass come to: `read_dir`, and for every name the listing of its entry, the
read, the send and the removal. -/
structure Io where
  opens : Bool
  lists : Name → Bool
  reads : Name → Bool
  sends : Name → Bool
  removes : Name → Bool

inductive PumpError
  | unreadable
  | read (name : Name)
  | send (name : Name)
  deriving DecidableEq

/-- What was sent, by the file it came from, and the files that are left. -/
structure Pumped where
  sent : List (Name × Bytes)
  files : List (Name × Bytes)
  deriving DecidableEq

def pumpFile (io : Io) (s : Pumped) (name : Name) : Except PumpError Pumped :=
  match Table.get s.files name with
  | none => .error (.read name)
  | some reply =>
    if ¬ io.reads name then .error (.read name)
    else if ¬ io.sends name then .error (.send name)
    else .ok ⟨s.sent ++ [(name, reply)],
      if io.removes name then Table.del s.files name else s.files⟩

/-- The names that a pass goes through, in order. -/
def names (io : Io) (fs : List (Name × Bytes)) : List Name :=
  (((Table.keys fs).filter io.lists).filter isCbor).insertionSort (· ≤ ·)

/-- `pump_replies` on the files of the session's directory. -/
def pumpReplies (io : Io) (fs : List (Name × Bytes)) : Except PumpError Pumped :=
  if ¬ io.opens then .error .unreadable else (sweep (pumpFile io) ⟨[], fs⟩ (names io fs)).2

/-! ## One file in a pass -/

/-- What is left of a file, and what was sent from it. -/
def Holds (name : Name) (left : Option Bytes) (log : List (Name × Bytes)) (s : Pumped) : Prop :=
  Table.get s.files name = left ∧ s.sent.filter (·.1 = name) = log

variable {io : Io} {name : Name} {s t : Pumped}

theorem pumpFile_of_ne {n : Name} (hn : n ≠ name) {left : Option Bytes} {log : List (Name × Bytes)}
    (hs : Holds name left log s) (h : pumpFile io s n = .ok t) : Holds name left log t := by
  rw [pumpFile] at h
  split at h
  · cases h
  next reply _ =>
    split_ifs at h with hreads hsends hremoves
    all_goals
      obtain rfl := Except.ok.inj h
      refine ⟨?_, by simpa [hn] using hs.2⟩
    · rw [Table.get_del_of_ne hn]
      exact hs.1
    · exact hs.1

theorem pumpFile_self {reply : Bytes} {log : List (Name × Bytes)}
    (hs : Holds name (some reply) log s) (h : pumpFile io s name = .ok t) :
    Holds name (if io.removes name then none else some reply) (log ++ [(name, reply)]) t := by
  rw [pumpFile, hs.1] at h
  simp only at h
  split_ifs at h with hreads hsends hremoves
  · obtain rfl := Except.ok.inj h
    exact ⟨by simp [hremoves], by simp [hs.2]⟩
  · obtain rfl := Except.ok.inj h
    exact ⟨by simpa [hremoves] using hs.1, by simp [hs.2]⟩

/-! ## The pass -/

theorem mem_names_iff {fs : List (Name × Bytes)} :
    name ∈ names io fs ↔ name ∈ Table.keys fs ∧ io.lists name ∧ isCbor name := by
  rw [names, List.mem_insertionSort]
  simp only [List.mem_filter, and_assoc]

/-- A file that was just put into the directory comes once. -/
theorem count_names_put_le (fs : List (Name × Bytes)) (content : Bytes) :
    (names io (Table.put fs name content)).count name ≤ 1 := by
  have hrest : name ∉ Table.keys (Table.del fs name) := by
    intro h
    obtain ⟨p, hp, hname⟩ := List.mem_map.1 h
    exact (Table.mem_of_mem_del hp).2 hname
  have hsub : (((Table.keys (Table.put fs name content)).filter io.lists).filter isCbor).Sublist
      (Table.keys (Table.put fs name content)) := List.filter_sublist.trans List.filter_sublist
  rw [names, (List.perm_insertionSort _ _).count_eq]
  apply (hsub.count_le name).trans
  rw [Table.put, Table.keys, List.map_cons, List.count_cons_self]
  exact (Nat.succ_le_succ (List.count_eq_zero.2 hrest).le)

/-- The pass takes the file between others. -/
theorem names_split {fs : List (Name × Bytes)} {content : Bytes}
    (h : name ∈ names io (Table.put fs name content)) :
    ∃ before after, names io (Table.put fs name content) = before ++ name :: after ∧
      name ∉ before ∧ name ∉ after := by
  obtain ⟨before, after, hsplit, hbefore⟩ := List.eq_append_cons_of_mem h
  refine ⟨before, after, hsplit, hbefore, fun hafter => ?_⟩
  have hcount : (names io (Table.put fs name content)).count name ≤ 1 :=
    count_names_put_le fs content
  rw [hsplit, List.count_append, List.count_cons_self] at hcount
  have := List.count_pos_iff.2 hafter
  omega

theorem sweep_of_notMem {l : List Name} (hl : name ∉ l) {left : Option Bytes}
    {log : List (Name × Bytes)} (hs : Holds name left log s)
    (h : (sweep (pumpFile io) s l).2 = .ok t) : Holds name left log t :=
  sweep_preserves (fun _ hn _ _ hs h => pumpFile_of_ne (ne_of_mem_of_not_mem hn hl) hs h) hs h

/-- What a pass makes of a file that was just put into the directory. -/
theorem pumpReplies_put {fs : List (Name × Bytes)} {content : Bytes}
    (h : pumpReplies io (Table.put fs name content) = .ok t) :
    if io.lists name ∧ isCbor name then
      Holds name (if io.removes name then none else some content) [(name, content)] t
    else Holds name (some content) [] t := by
  have hs : Holds name (some content) [] ⟨[], Table.put fs name content⟩ :=
    ⟨Table.get_put_self fs name content, rfl⟩
  rw [pumpReplies] at h
  split_ifs at h with hopens
  by_cases hname : name ∈ names io (Table.put fs name content)
  · rw [if_pos (mem_names_iff.1 hname).2]
    obtain ⟨before, after, hsplit, hbefore, hafter⟩ := names_split hname
    rw [hsplit] at h
    obtain ⟨s₁, h₁, h⟩ := sweep_append_ok_iff.1 h
    obtain ⟨s₂, h₂, h₃⟩ := sweep_cons_ok_iff.1 h
    have hsent := pumpFile_self (sweep_of_notMem hbefore hs h₁) h₂
    exact sweep_of_notMem hafter hsent h₃
  · have hkey : name ∈ Table.keys (Table.put fs name content) := List.mem_cons_self
    rw [if_neg fun hx => hname (mem_names_iff.2 ⟨hkey, hx⟩)]
    exact sweep_of_notMem hname hs h

theorem isCbor_replyName (requestId : Bytes) : isCbor (replyName requestId) ↔ requestId ≠ [] := by
  simp [isCbor, replyName]

/-- The next pass that goes through sends the reply once, with the bytes of the deposit, and removes
the file, exactly if the request id is not empty, its entry is listed and the removal succeeds. -/
theorem deposit_pumped_iff {requestId content : Bytes} {d : Option (Dir Bytes)} {d' : Dir Bytes}
    (hdeposit : depositNow (replyName requestId) content d = some d')
    (hpump : pumpReplies io d'.files = .ok t) :
    (t.sent.filter (·.1 = replyName requestId) = [(replyName requestId, content)] ∧
      Table.get t.files (replyName requestId) = none) ↔
    requestId ≠ [] ∧ io.lists (replyName requestId) ∧ io.removes (replyName requestId) := by
  rw [depositNow_files hdeposit] at hpump
  have hholds := pumpReplies_put hpump
  rw [← isCbor_replyName]
  split at hholds
  next hname =>
    rw [hholds.1, hholds.2]
    simp [hname.1, hname.2]
  next hname =>
    rw [hholds.2]
    exact iff_of_false (fun h => absurd h.1 (List.cons_ne_nil _ _).symm) fun h => hname ⟨h.2.1, h.1⟩

/-- Every call succeeds. -/
def Io.fine : Io := ⟨true, fun _ => true, fun _ => true, fun _ => true, fun _ => true⟩

/-- A session that waits for two replies gets both, in the order of their names. -/
theorem deposit_pumped_two :
    let d : Dir Bytes :=
      ⟨some [], [(ascii "b.cbor", ascii "second"), (ascii ".cbor", ascii "none")]⟩
    ∃ d' t, depositNow (replyName (ascii "a")) (ascii "first") (some d) = some d' ∧
      pumpReplies Io.fine d'.files = .ok t ∧
      t.sent = [(ascii "a.cbor", ascii "first"), (ascii "b.cbor", ascii "second")] ∧
      t.sent.filter (·.1 = replyName (ascii "a")) = [(replyName (ascii "a"), ascii "first")] ∧
      Table.get t.files (replyName (ascii "a")) = none := by
  have hdeposit : depositNow (replyName (ascii "a")) (ascii "first")
      (some (⟨some [], [(ascii "b.cbor", ascii "second"), (ascii ".cbor", ascii "none")]⟩ :
        Dir Bytes)) =
      some ⟨some [], [(ascii "a.cbor", ascii "first"), (ascii "b.cbor", ascii "second"),
        (ascii ".cbor", ascii "none")]⟩ := by decide +kernel
  have hpump : pumpReplies Io.fine [(ascii "a.cbor", ascii "first"),
      (ascii "b.cbor", ascii "second"), (ascii ".cbor", ascii "none")] =
      .ok ⟨[(ascii "a.cbor", ascii "first"), (ascii "b.cbor", ascii "second")],
        [(ascii ".cbor", ascii "none")]⟩ := by decide +kernel
  exact ⟨_, _, hdeposit, hpump, rfl, (deposit_pumped_iff hdeposit hpump).2 ⟨by decide, rfl, rfl⟩⟩

/-- The subject `AXIOM/witness/` has the empty request id.  Its reply is deposited as `.cbor`, and a
pass in which every call succeeds does not send it. -/
theorem empty_requestId_stuck :
    ¬ ∀ (subject messageType requestId content : Bytes) (d : Option (Dir Bytes)) (d' : Dir Bytes)
      (t : Pumped), Antie.parseSubject subject = .ok (messageType, requestId) →
      depositNow (replyName requestId) content d = some d' → pumpReplies Io.fine d'.files = .ok t →
      t.sent.filter (·.1 = replyName requestId) = [(replyName requestId, content)] ∧
        Table.get t.files (replyName requestId) = none := by
  intro h
  have hlost := h (ascii "AXIOM/witness/") (ascii "witness") [] (ascii "reply") none
    ⟨some [], [(ascii ".cbor", ascii "reply")]⟩ ⟨[], [(ascii ".cbor", ascii "reply")]⟩ (by rfl)
    (by decide +kernel) (by decide +kernel)
  exact absurd hlost.1 (List.cons_ne_nil _ _).symm

end Seam.Pump
