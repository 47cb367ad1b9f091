import AxiomCarriers.Antie.ChequeRoute
import AxiomCarriers.Lib.Run
import AxiomCarriers.Lib.Text

/-!
# The skip list

Sibling carriers name the receivers whose cheques they fetch in a file, and send a SIGHUP when they
have changed it.  The handler reads the file and then puts the entries in place of the old ones,
while cheques are dispatched all the time; signals that come before it takes one are one signal.

`signalled_in_flight` says where a change is until it is in force.  `diverted_as_listed` says that
none is lost: once the handler waits and no signal does, a cheque is offered to the sibling carriers
if and only if the file lists its receiver.
-/

namespace Antie.SkipList

open Bytes ChequeRoute Gateway Runs

/-! ## The list -/

/-- `load_entries`: `content` is what the file holds, `none` where it cannot be read. -/
def loadEntries (content : Option Bytes) : List Bytes :=
  match content with
  | none => []
  | some b =>
    if Utf8.Valid b then ((lines b).map Text.trim).filter fun l => l ≠ [] ∧ l.head? ≠ some 35
    else []

/-- Where the SIGHUP handler is. -/
inductive Handler
  /-- In `sig.recv()`. -/
  | waiting
  /-- In `reload`, before it reads the file. -/
  | reading
  /-- In `reload`, before it swaps the entries. -/
  | swapping (entries : List Bytes)
  deriving DecidableEq

structure State where
  file : Option Bytes
  /-- A signal waits for the handler. -/
  pending : Bool
  handler : Handler
  /-- What `contains` looks in. -/
  entries : List Bytes
  /-- All that the file has held. -/
  versions : List (Option Bytes)
  /-- A signal was sent since the file changed. -/
  signalled : Bool

inductive Event
  /-- The file is rewritten, in part or whole, replaced or removed. -/
  | change (content : Option Bytes)
  | sighup
  | recv
  | read (ok : Bool)
  | swap

def step (s : State) : Event → Option State
  | .change content =>
    some { s with file := content, versions := content :: s.versions, signalled := false }
  | .sighup => some { s with pending := true, signalled := true }
  | .recv =>
    match s.handler with
    | .waiting => if s.pending then some { s with pending := false, handler := .reading } else none
    | _ => none
  | .read ok =>
    match s.handler with
    | .reading =>
      some { s with handler := .swapping (loadEntries (if ok then s.file else none)) }
    | _ => none
  | .swap =>
    match s.handler with
    | .swapping entries => some { s with handler := .waiting, entries := entries }
    | _ => none

/-- `maybe_open`. -/
def opened (file : Option Bytes) : State := ⟨file, false, .waiting, loadEntries file, [file], true⟩

/-- A file that is there is read. -/
def Reads : Event → Prop
  | .read ok => ok = true
  | _ => True

instance : ∀ e, Decidable (Reads e)
  | .read ok => inferInstanceAs (Decidable (ok = true))
  | .change _ | .sighup | .recv | .swap => inferInstanceAs (Decidable True)

/-- What a step can do. -/
inductive Step (s : State) : Event → State → Prop
  | change (content : Option Bytes) : Step s (.change content)
      { s with file := content, versions := content :: s.versions, signalled := false }
  | sighup : Step s .sighup { s with pending := true, signalled := true }
  | recv : Step s .recv { s with pending := false, handler := .reading }
  | read (ok : Bool) : Step s (.read ok)
      { s with handler := .swapping (loadEntries (if ok then s.file else none)) }
  | swap {entries : List Bytes} (hhandler : s.handler = .swapping entries) :
    Step s .swap { s with handler := .waiting, entries := entries }

variable {s t : State} {e : Event}

theorem step_spec (h : step s e = some t) : Step s e t := by
  cases e with
  | change content =>
    obtain rfl := Option.some.inj h
    exact .change content
  | sighup =>
    obtain rfl := Option.some.inj h
    exact .sighup
  | recv =>
    unfold step at h
    dsimp only at h
    split at h
    · split_ifs at h
      obtain rfl := Option.some.inj h
      exact .recv
    · cases h
  | read ok =>
    unfold step at h
    dsimp only at h
    split at h
    · obtain rfl := Option.some.inj h
      exact .read ok
    · cases h
  | swap =>
    unfold step at h
    dsimp only at h
    split at h
    · rename_i entries hhandler
      obtain rfl := Option.some.inj h
      exact .swap hhandler
    · cases h

/-! ## Versions -/

/-- The entries that are in force, or about to be, are those of something that the file has held, or
none. -/
def FromVersion (s : State) (entries : List Bytes) : Prop :=
  ∃ v ∈ none :: s.versions, entries = loadEntries v

theorem FromVersion.change {entries : List Bytes} (h : FromVersion s entries)
    {t : State} (ht : s.versions ⊆ t.versions) : FromVersion t entries := by
  obtain ⟨v, hv, rfl⟩ := h
  exact ⟨v, List.cons_subset_cons none ht hv, rfl⟩

structure Inv (s : State) : Prop where
  file : s.file ∈ s.versions
  entries : FromVersion s s.entries
  swapping : ∀ entries, s.handler = .swapping entries → FromVersion s entries

theorem inv_opened (file : Option Bytes) : Inv (opened file) where
  file := List.mem_singleton_self file
  entries := ⟨file, List.mem_cons_of_mem none (List.mem_singleton_self file), rfl⟩
  swapping := fun _ h => Handler.noConfusion h

theorem step_inv (h : Inv s) (hstep : step s e = some t) : Inv t := by
  cases step_spec hstep with
  | change content =>
    have hsub : s.versions ⊆ content :: s.versions := List.subset_cons_self _ _
    exact ⟨List.mem_cons_self, h.entries.change hsub, fun es hes => (h.swapping es hes).change hsub⟩
  | sighup => exact ⟨h.file, h.entries, h.swapping⟩
  | recv => exact ⟨h.file, h.entries, fun _ hes => Handler.noConfusion hes⟩
  | read ok =>
    refine ⟨h.file, h.entries, fun es hes => ?_⟩
    obtain rfl := Handler.swapping.inj hes
    refine ⟨_, ?_, rfl⟩
    split_ifs
    · exact List.mem_cons_of_mem none h.file
    · exact List.mem_cons_self
  | swap hhandler =>
    exact ⟨h.file, h.swapping _ hhandler, fun _ hes => Handler.noConfusion hes⟩

/-! ## Changes that were signalled -/

/-- A change that was signalled is in flight, or in force: its signal waits, the handler has yet to
read the file, or it has read it as it is. -/
def InFlight (s : State) : Prop :=
  s.signalled = true → s.pending = true ∨
    match s.handler with
    | .waiting => s.entries = loadEntries s.file
    | .reading => True
    | .swapping entries => entries = loadEntries s.file

theorem step_inFlight (h : InFlight s) (hreads : Reads e) (hstep : step s e = some t) :
    InFlight t := by
  cases step_spec hstep with
  | change content => exact fun hsignalled => Bool.noConfusion hsignalled
  | sighup => exact fun _ => Or.inl rfl
  | recv => exact fun _ => Or.inr trivial
  | read ok =>
    refine fun _ => Or.inr ?_
    show loadEntries (if ok then s.file else none) = loadEntries s.file
    rw [if_pos (show ok = true from hreads)]
  | swap hhandler =>
    refine fun hsignalled => (h hsignalled).imp_right fun hcurrent => ?_
    rwa [hhandler] at hcurrent

theorem signalled_in_flight {file : Option Bytes} {es : List Event}
    (hreads : Along step (fun _ => Reads) (opened file) es)
    (hrun : run step (opened file) es = some t) : InFlight t :=
  run_invariant (fun _ _ _ h hreads hstep => step_inFlight h hreads hstep)
    (fun _ => Or.inr rfl) hreads hrun

/-- The file has a line for the receiver. -/
def Lists (content : Option Bytes) (wallet : Bytes) : Prop :=
  ∃ b, content = some b ∧ Utf8.Valid b ∧ (∃ l ∈ lines b, Text.trim l = wallet) ∧
    wallet ≠ [] ∧ wallet.head? ≠ some 35

theorem mem_loadEntries {content : Option Bytes} {wallet : Bytes} :
    wallet ∈ loadEntries content ↔ Lists content wallet := by
  cases content with
  | none => simp [loadEntries, Lists]
  | some b =>
    by_cases hvalid : Utf8.Valid b
    · simp [loadEntries, Lists, hvalid]
    · simp [loadEntries, Lists, hvalid]

/-- What is left for the handler to do. -/
def settle (s : State) : List Event :=
  (match s.handler with
    | .waiting => []
    | .reading => [.read true, .swap]
    | .swapping _ => [.swap]) ++ if s.pending then [.recv, .read true, .swap] else []

theorem settle_spec (s : State) : ∃ u, run step s (settle s) = some u ∧ u.pending = false ∧
    u.handler = .waiting ∧ u.file = s.file ∧ u.signalled = s.signalled := by
  obtain ⟨file, pending, handler, entries, versions, signalled⟩ := s
  cases pending <;> cases handler <;> exact ⟨_, rfl, rfl, rfl, rfl, rfl⟩

theorem reads_settle (s : State) : ∀ e ∈ settle s, Reads e := by
  obtain ⟨file, pending, handler, entries, versions, signalled⟩ := s
  cases pending <;> cases handler <;> simp [settle, Reads]

theorem along_reads {es : List Event} (h : ∀ e ∈ es, Reads e) (s : State) :
    Along step (fun _ => Reads) s es := by
  induction es generalizing s with
  | nil => trivial
  | cons e es ih =>
    refine along_cons_iff.2 ⟨h e List.mem_cons_self, fun s' _ => ih (fun e' he' => ?_) s'⟩
    exact h e' (List.mem_cons_of_mem e he')

/-- What `contains` answers by: one version of the file, or none.  As long as the file can be read,
and once its last change was signalled, the handler has at most five steps to do, and then a cheque
is offered to the sibling carriers if and only if the file as it is lists its receiver. -/
theorem diverted_as_listed {file : Option Bytes} {es : List Event}
    (hrun : run step (opened file) es = some t) :
    (∃ v ∈ none :: t.versions, ∀ wallet, wallet ∈ t.entries ↔ Lists v wallet) ∧
    (Along step (fun _ => Reads) (opened file) es → t.signalled = true → (settle t).length ≤ 5 ∧
      ∃ u, run step t (settle t) = some u ∧ ∀ (w : Outside) (wallet txid content : Bytes),
        .skipped (txid ++ ascii ".cheque") content w.writeSkipped ∈
          skipAttempt { w with skipList := some u.entries } wallet txid content ↔
        Lists t.file wallet) := by
  constructor
  · obtain ⟨v, hv, hentries⟩ := (run_preserves (fun _ _ _ h hstep => step_inv h hstep)
      (inv_opened file) hrun).entries
    exact ⟨v, hv, fun wallet => by rw [hentries, mem_loadEntries]⟩
  · intro hreads hsignalled
    obtain ⟨u, hu, hpending, hhandler, hfile, hsame⟩ := settle_spec t
    have hflight : InFlight u := run_invariant
      (fun _ _ _ h hreads hstep => step_inFlight h hreads hstep)
      (signalled_in_flight hreads hrun) (along_reads (reads_settle t) t) hu
    have hentries : u.entries = loadEntries t.file := by
      have hcurrent := hflight (hsame.trans hsignalled)
      rw [hpending, hhandler, hfile] at hcurrent
      exact hcurrent.resolve_left Bool.false_ne_true
    refine ⟨?_, u, hu, fun w wallet txid content => ?_⟩
    · obtain ⟨file, pending, handler, entries, versions, signalled⟩ := t
      cases pending <;> cases handler <;> simp [settle]
    · rw [← mem_loadEntries, ← hentries]
      unfold skipAttempt
      by_cases hlisted : wallet ∈ u.entries
      · simp [hlisted]
      · simp [hlisted]

/-- The file changes twice while the handler goes through the first signal. -/
def sampleEvents : List Event :=
  [.change (some (ascii "# uncle\n w1 \r\n")), .sighup, .recv, .read true,
    .change (some (ascii "w2\n\n")), .sighup, .sighup, .swap]

theorem diverted_as_listed_two : ∃ t u,
    run step (opened none) sampleEvents = some t ∧ t.entries = [ascii "w1"] ∧
    run step t (settle t) = some u ∧ ∀ (w : Outside) (wallet txid content : Bytes),
      .skipped (txid ++ ascii ".cheque") content w.writeSkipped ∈
        skipAttempt { w with skipList := some u.entries } wallet txid content ↔
      Lists t.file wallet := by
  have hreads : Along step (fun _ => Reads) (opened none) sampleEvents := by decide +kernel
  have hr : (run step (opened none) sampleEvents).map (fun t => (t.entries, t.signalled)) =
      some ([ascii "w1"], true) := by decide +kernel
  obtain ⟨t, ht, hx⟩ := Option.map_eq_some_iff.1 hr
  obtain ⟨hentries, hsignalled⟩ := Prod.mk.inj hx
  obtain ⟨-, u, hu, hlisted⟩ := (diverted_as_listed ht).2 hreads hsignalled
  exact ⟨t, u, ht, hentries, hu, hlisted⟩

end Antie.SkipList
