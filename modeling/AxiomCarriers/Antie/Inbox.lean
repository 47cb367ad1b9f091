import AxiomCarriers.Antie.Dispatch
import AxiomCarriers.Lib.Sweep

/-!
# A pass over the inbox

`process_carrier_messages` over the maildir when files may fail: `check_new` lists `new` and reads
every file of the listing before the first message is dispatched, and returns the first error that
it meets.  Then every message is taken, and an error in one of them is only counted.

`inbox_dispatched_iff` says that the files that can be read are dispatched exactly if every file can
be, or none.  A pass in which nothing fails is the one of `Dispatch` (`checkNew_eq_read`).
-/

namespace Antie.Inbox

open Bytes Utf8 Sweeps Dispatch

/-- The text of an `io::Error`. -/
abbrev IoError := Bytes

/-- An entry of `new`, as `next_entry`, `is_file` and `fs::read` find it. -/
inductive Entry
  | failed (e : IoError)
  | other (name : Bytes)
  | file (name : Bytes) (content : Except IoError Bytes)

/-- What `read_dir` comes to. -/
abbrev Listing := Except IoError (List Entry)

/-- What an entry adds to the listing: its path, with what reading it will come to. -/
def listEntry : Entry → Except IoError (List (Bytes × Except IoError Bytes))
  | .failed e => .error e
  | .other _ => .ok []
  | .file name content => .ok [(name, content)]

/-- `Maildir::list_new`. -/
def listNew (d : Listing) : Except IoError (List (Bytes × Except IoError Bytes)) :=
  d >>= fun entries => (sweep (pushing listEntry) [] entries).2

def readMessage (path : Bytes × Except IoError Bytes) : Except IoError (List Message) :=
  path.2.map fun raw => [⟨lossy path.1, raw⟩]

/-- `MaildirCarrier::check_new`. -/
def checkNew (d : Listing) : Except IoError (List Message) :=
  listNew d >>= fun paths => (sweep (pushing readMessage) [] paths).2

inductive Handling
  | rejected
  | processed (ok : Bool)
  deriving DecidableEq

/-- The loop of `process_carrier_messages` from a message on: `env` gives, for every message,
Lambda's average and whether it is processed without an error. -/
def dispatch (threshold : UInt64) (env : ℕ → UInt64 × Bool) (total : ℕ) :
    ℕ → List Message → List (Message × Handling)
  | _, [] => []
  | idx, m :: messages =>
    (m, if shouldRejectBusy threshold (env idx).1 (total - (idx + 1)) then .rejected
      else .processed (env idx).2) :: dispatch threshold env total (idx + 1) messages

/-- `process_carrier_messages`: the messages that it dispatches, and how each is handled. -/
def processCarrierMessages (threshold : UInt64) (env : ℕ → UInt64 × Bool) (d : Listing) :
    List (Message × Handling) :=
  match checkNew d with
  | .ok messages => dispatch threshold env messages.length 0 messages
  | .error _ => []

/-! ## Listing and reading -/

/-- The file of an entry. -/
def Entry.path : Entry → List (Bytes × Except IoError Bytes)
  | .file name content => [(name, content)]
  | _ => []

/-- The message in a file that can be read. -/
def message (path : Bytes × Except IoError Bytes) : List Message :=
  (path.2.toOption.map fun raw => ⟨lossy path.1, raw⟩).toList

/-- The messages in the files of the listing that can be read. -/
def readable (entries : List Entry) : List Message := (entries.flatMap Entry.path).flatMap message

/-- Every entry can be listed, and every file read. -/
def Sound (entries : List Entry) : Prop :=
  (∀ e ∈ entries, ∀ err, e ≠ .failed err) ∧
    ∀ path ∈ entries.flatMap Entry.path, ∃ raw, path.2 = .ok raw

theorem listEntry_eq {e : Entry} (h : ∀ err, e ≠ .failed err) : listEntry e = .ok e.path := by
  cases e with
  | failed err => exact absurd rfl (h err)
  | other name => rfl
  | file name content => rfl

theorem readMessage_eq {path : Bytes × Except IoError Bytes} (h : ∃ raw, path.2 = .ok raw) :
    readMessage path = .ok (message path) := by
  obtain ⟨name, content⟩ := path
  obtain ⟨raw, rfl⟩ := h
  rfl

/-- When nothing fails, every file becomes a message. -/
theorem checkNew_sound {entries : List Entry} (h : Sound entries) :
    checkNew (.ok entries) = .ok (readable entries) := by
  have hlist : listNew (.ok entries) = .ok (entries.flatMap Entry.path) :=
    sweep_pushing (fun e he => listEntry_eq (h.1 e he)) []
  rw [checkNew, hlist]
  exact sweep_pushing (fun path hpath => readMessage_eq (h.2 path hpath)) []

/-- One failure, and there are no messages. -/
theorem checkNew_ok_iff (d : Listing) :
    (∃ messages, checkNew d = .ok messages) ↔ ∃ entries, d = .ok entries ∧ Sound entries := by
  constructor
  · rintro ⟨messages, h⟩
    obtain ⟨paths, hlist, hread⟩ := Except.bind_eq_ok_iff.1 h
    obtain ⟨entries, rfl, hentries⟩ := Except.bind_eq_ok_iff.1 hlist
    have hlisted : ∀ e ∈ entries, ∀ err, e ≠ .failed err := by
      rintro e he err rfl
      obtain ⟨paths, hpaths⟩ := (sweep_pushing_ok_iff [] entries).1 ⟨_, hentries⟩ _ he
      cases hpaths
    have hpaths : paths = entries.flatMap Entry.path := by
      rw [sweep_pushing (fun e he => listEntry_eq (hlisted e he)) [], Except.ok.injEq] at hentries
      exact hentries.symm
    refine ⟨entries, rfl, hlisted, fun path hpath => ?_⟩
    obtain ⟨_, hraw⟩ := (sweep_pushing_ok_iff [] paths).1 ⟨_, hread⟩ path (hpaths ▸ hpath)
    obtain ⟨raw, hraw, -⟩ := Except.map_eq_ok_iff.1 hraw
    exact ⟨raw, hraw⟩
  · rintro ⟨entries, rfl, h⟩
    exact ⟨_, checkNew_sound h⟩

/-- A file of a maildir in which every file can be read. -/
def entryOf (new : List (Bytes × Bytes)) (name : Bytes) : Entry :=
  .file name (match Table.get new name with
    | some raw => .ok raw
    | none => .error (ascii "No such file or directory (os error 2)"))

/-- A listing of such files is read as the dispatcher's runs have it. -/
theorem checkNew_eq_read {new : List (Bytes × Bytes)} {names : List Bytes}
    (h : ∀ n ∈ names, Table.get new n ≠ none) :
    checkNew (.ok (names.map (entryOf new))) = .ok (read new names) := by
  have hentry : ∀ n ∈ names, ∃ raw,
      Table.get new n = some raw ∧ entryOf new n = .file n (.ok raw) := by
    intro n hn
    obtain ⟨raw, hraw⟩ := Option.ne_none_iff_exists'.1 (h n hn)
    exact ⟨raw, hraw, by rw [entryOf, hraw]⟩
  have hsound : Sound (names.map (entryOf new)) := by
    refine ⟨fun e he err hfailed => ?_, fun path hpath => ?_⟩
    · obtain ⟨n, hn, rfl⟩ := List.mem_map.1 he
      obtain ⟨raw, -, hfile⟩ := hentry n hn
      exact Entry.noConfusion (hfile.symm.trans hfailed)
    · rw [List.flatMap_map] at hpath
      obtain ⟨n, hn, hpath⟩ := List.mem_flatMap.1 hpath
      obtain ⟨raw, -, hfile⟩ := hentry n hn
      rw [hfile] at hpath
      exact ⟨raw, congrArg Prod.snd (List.mem_singleton.1 hpath)⟩
  rw [checkNew_sound hsound, readable, List.flatMap_map, List.flatMap_assoc]
  refine congrArg Except.ok ?_
  clear hsound h
  induction names with
  | nil => rfl
  | cons n names ih =>
    rw [List.forall_mem_cons] at hentry
    obtain ⟨⟨raw, hraw, hfile⟩, hentry⟩ := hentry
    have hcons : read new (n :: names) = ⟨lossy n, raw⟩ :: read new names :=
      List.filterMap_cons_some (by rw [hraw]; rfl)
    rw [List.flatMap_cons, ih hentry, hcons, hfile]
    rfl

/-! ## The pass -/

/-- The gate and the outcome of each message of a batch. -/
theorem dispatch_getElem? (threshold : UInt64) (env : ℕ → UInt64 × Bool) (total idx i : ℕ)
    (messages : List Message) :
    (dispatch threshold env total idx messages)[i]? = messages[i]?.map fun m =>
      (m, if shouldRejectBusy threshold (env (idx + i)).1 (total - (idx + i + 1)) then .rejected
        else .processed (env (idx + i)).2) := by
  induction messages generalizing idx i with
  | nil => rfl
  | cons m messages ih =>
    cases i with
    | zero => rfl
    | succ i =>
      rw [dispatch, List.getElem?_cons_succ, List.getElem?_cons_succ, ih, Nat.add_right_comm,
        Nat.add_assoc idx i 1]

theorem dispatch_fst (threshold : UInt64) (env : ℕ → UInt64 × Bool) (total idx : ℕ)
    (messages : List Message) :
    (dispatch threshold env total idx messages).map (·.1) = messages := by
  induction messages generalizing idx with
  | nil => rfl
  | cons m messages ih => rw [dispatch, List.map_cons, ih]

/-- A pass dispatches all messages of its listing, or none at all. -/
theorem processCarrierMessages_fst (threshold : UInt64) (env : ℕ → UInt64 × Bool) (d : Listing) :
    (processCarrierMessages threshold env d).map (·.1) = (checkNew d).toOption.getD [] := by
  unfold processCarrierMessages
  cases checkNew d with
  | error e => rfl
  | ok messages => exact dispatch_fst threshold env _ _ messages

/-- Every file that can be read is dispatched exactly if every entry of `new` can be listed and
every file in it read, or if no file can be read. -/
theorem inbox_dispatched_iff (threshold : UInt64) (env : ℕ → UInt64 × Bool) (entries : List Entry) :
    (∀ m ∈ readable entries, ∃ handling,
        (m, handling) ∈ processCarrierMessages threshold env (.ok entries)) ↔
      Sound entries ∨ readable entries = [] := by
  have hmem : ∀ m,
      (∃ handling, (m, handling) ∈ processCarrierMessages threshold env (.ok entries)) ↔
      m ∈ (checkNew (.ok entries)).toOption.getD [] := by
    intro m
    rw [← processCarrierMessages_fst threshold env, List.mem_map]
    simp
  simp only [hmem]
  by_cases hsound : Sound entries
  · rw [checkNew_sound hsound]
    exact iff_of_true (fun m hm => hm) (Or.inl hsound)
  · have hfail : (checkNew (.ok entries)).toOption = none := by
      cases h : checkNew (.ok entries) with
      | error e => rfl
      | ok messages =>
        obtain ⟨entries', he, hs⟩ := (checkNew_ok_iff _).1 ⟨messages, h⟩
        exact absurd (Except.ok.inj he ▸ hs) hsound
    rw [hfail, or_iff_right hsound]
    simp [List.eq_nil_iff_forall_not_mem]

/-- One of two files may not be read, and neither is dispatched. -/
theorem inbox_blocked : ¬ ∀ (threshold : UInt64) (env : ℕ → UInt64 × Bool) (entries : List Entry),
    ∀ m ∈ readable entries, ∃ handling,
      (m, handling) ∈ processCarrierMessages threshold env (.ok entries) := by
  intro h
  obtain ⟨handling, hm⟩ := h 0 (fun _ => (0, true))
    [.file (ascii "1") (.ok (ascii "Subject: AXIOM/witness/1\r\n\r\n")),
      .file (ascii "2") (.error (ascii "Permission denied (os error 13)"))]
    ⟨ascii "1", ascii "Subject: AXIOM/witness/1\r\n\r\n"⟩ (by decide)
  exact absurd hm List.not_mem_nil

end Antie.Inbox
