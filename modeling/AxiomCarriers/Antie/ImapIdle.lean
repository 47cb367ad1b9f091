import AxiomCarriers.Antie.Imap
import AxiomCarriers.Antie.CarrierBackoff
import AxiomCarriers.Lib.Run

/-!
# Mail and the IDLE loop

`run_imap_carrier` fetches what is unseen, opens a session, asks once more, and idles until the
server reports an arrival.  The server reports an arrival once, at any time after the mailbox is
selected, in a line of its own; `imap_command` drops the lines that it has read along with a reply.

A mail is not slept through while the server is never ahead of its reply to the search: as long as
no report is read together with that reply, every mail that has come in while the loop idles is
still to be reported, or reported in a line that the loop has yet to read (`idle_wakes`).

A mail that cannot be fetched is never waited for: the session finds it unseen, which counts as a
success, and the next fetch follows at once (`unfetchable_never_waits`).
-/

namespace Antie.ImapIdle

open Bytes Text Imap CarrierBackoff

/-! ## The lines of the server -/

/-- A line, without its CR LF; the one with the tag of the command ends a reply. -/
inductive Line
  | untagged (text : Bytes)
  | tagged
  deriving DecidableEq

/-- `* n EXISTS`. -/
def existsLine (n : ℕ) : Bytes := ascii "*" ++ 32 :: (decimal n ++ 32 :: ascii "EXISTS")

/-- `* SEARCH` and the UIDs. -/
def searchLine (uids : List ℕ) : Bytes :=
  ascii "*" ++ 32 :: (ascii "SEARCH" ++ uids.flatMap fun u => 32 :: decimal u)

/-- The test of the loop of `idle_wait` on a line. -/
def wakes (line : Bytes) : Bool :=
  let t := trim line
  !(ascii "+").isPrefixOf t && ((ascii "* ").isPrefixOf t &&
    ((ascii "EXISTS").isSuffixOf t || (ascii "RECENT").isSuffixOf t))

/-- The test of `idle_wait` on a line of the reply to its search, as `imap_command` returns it. -/
def hit (line : Bytes) : Bool :=
  (ascii "* SEARCH").isPrefixOf (trim line) && (words (trim line))[2]?.isSome

def Line.wakes : Line → Bool
  | .untagged text => ImapIdle.wakes text
  | .tagged => false

def Line.hit : Line → Bool
  | .untagged text => ImapIdle.hit text
  | .tagged => false

/-! ## The loop and the mailbox -/

/-- What the loop is about.  The UIDs of a fetch are those of its search. -/
inductive Phase
  /-- The session of `check_new`, up to its search. -/
  | searching
  | fetching (uids : List ℕ)
  /-- Messages to be stored and marked. -/
  | handling (uids : List ℕ)
  /-- The session of `idle_wait`, up to SELECT. -/
  | opening
  /-- Up to the search of `idle_wait`. -/
  | selected
  /-- The server has sent what it has found. -/
  | answered
  /-- The server has ended its reply. -/
  | completed
  | idling
  | sleeping (wait : Duration)
  /-- In the poll loop. -/
  | polling
  deriving DecidableEq

structure State where
  /-- The next UID. -/
  next : ℕ
  unseen : List ℕ
  /-- The messages in the inbox. -/
  inbox : List ℕ
  phase : Phase
  /-- The server has mail to report to the session. -/
  owed : Bool
  /-- The lines of the session that the loop has not read. -/
  stream : List Line
  /-- `poll_interval_ms`. -/
  interval : Duration
  failures : ℕ
  /-- The last fetch has reached the server. -/
  fetched : Bool
  deriving DecidableEq

inductive Event
  /-- A mail comes into the mailbox. -/
  | arrive
  /-- The server reports what it owes. -/
  | report (count : ℕ)
  /-- Another line of the server, that neither wakes nor answers a search. -/
  | other (text : Bytes)
  | search
  | fetch
  /-- `check_new` fails. -/
  | fetchFail
  /-- A message is stored, and marked, or not. -/
  | handle (stored marked : Bool)
  | select
  | answer
  | complete
  /-- The loop reads the reply, and so many lines along with it. -/
  | read (buffered : ℕ)
  | line
  /-- Nothing has come in until the deadline. -/
  | recycle
  /-- The session fails. -/
  | fail
  | notSupported
  | wake
  deriving DecidableEq

/-- A session is open in which the server reports arrivals. -/
def Phase.inSession : Phase → Bool
  | .selected | .answered | .completed | .idling => true
  | _ => false

/-- Back at the head of the loop, after an idle wait that went well. -/
def State.again (s : State) : State :=
  { s with phase := .searching, owed := false, stream := [], failures := count s.failures true }

/-- `deliver_carrier_messages` has returned. -/
def State.delivered (s : State) (reached : Bool) : State :=
  { s with phase := .opening, fetched := reached }

/-- `deliver_carrier_messages` goes on to the next message, or returns. -/
def State.goOn (s : State) : List ℕ → State
  | [] => s.delivered true
  | uid :: uids => { s with phase := .handling (uid :: uids) }

/-- The error branch of `run_imap_carrier`. -/
def State.failed (s : State) : State :=
  let failures := count (if s.fetched then count s.failures true else s.failures) false
  { s with
    phase := .sleeping (carrierBackoff s.interval failures), owed := false, stream := [], failures }

/-- What is read with the reply to the search: the lines up to the tagged one, and those behind it
that the reader has buffered; and the rest. -/
def State.reply (s : State) (buffered : ℕ) : List Line × List Line × List Line :=
  let lines := s.stream.takeWhile (· ≠ .tagged)
  let rest := (s.stream.dropWhile (· ≠ .tagged)).tail
  (lines, rest.take buffered, rest.drop buffered)

def step (s : State) : Event → Option State
  | .arrive => some { s with
      next := s.next + 1, unseen := s.unseen ++ [s.next], owed := s.phase.inSession }
  | .report count =>
    if s.owed then
      some { s with owed := false, stream := s.stream ++ [.untagged (existsLine count)] }
    else none
  | .other text =>
    if s.phase.inSession ∧ ¬ wakes text ∧ ¬ hit text then
      some { s with stream := s.stream ++ [.untagged text] }
    else none
  | .search => match s.phase with
    | .searching => some { s with phase := .fetching s.unseen }
    | _ => none
  | .fetch => match s.phase with
    | .fetching uids => some (s.goOn uids)
    | _ => none
  | .fetchFail => match s.phase with
    | .searching | .fetching _ => some (s.delivered false)
    | _ => none
  | .handle stored marked => match s.phase with
    | .handling (uid :: uids) =>
      let s := if stored then { s with inbox := s.inbox ++ [uid] } else s
      let s := if stored ∧ marked then { s with unseen := s.unseen.erase uid } else s
      some (s.goOn uids)
    | _ => none
  | .select => match s.phase with
    | .opening => some { s with phase := .selected }
    | _ => none
  | .answer => match s.phase with
    | .selected => some { s with
        phase := .answered, stream := s.stream ++ [.untagged (searchLine s.unseen)] }
    | _ => none
  | .complete => match s.phase with
    | .answered => some { s with phase := .completed, stream := s.stream ++ [.tagged] }
    | _ => none
  | .read buffered => match s.phase with
    | .completed =>
      let (lines, _, rest) := s.reply buffered
      if lines.any Line.hit then some s.again
      else some { s with phase := .idling, stream := rest }
    | _ => none
  | .line => match s.phase, s.stream with
    | .idling, l :: rest => if l.wakes then some s.again else some { s with stream := rest }
    | _, _ => none
  | .recycle => match s.phase with
    | .idling => some s.again
    | _ => none
  | .fail => match s.phase with
    | .opening | .selected | .answered | .completed | .idling => some s.failed
    | _ => none
  | .notSupported => match s.phase with
    | .selected => some { s with phase := .polling, owed := false, stream := [], failures := 0 }
    | _ => none
  | .wake => match s.phase with
    | .sleeping _ => some { s with phase := .searching }
    | _ => none

def start (interval : Duration) : State :=
  ⟨0, [], [], .searching, false, [], interval, 0, false⟩

/-! ## What the tests say of the lines -/

/-- A report wakes the loop. -/
theorem wakes_existsLine (n : ℕ) : wakes (existsLine n) := by
  have hform : existsLine n = 42 :: ((32 :: (decimal n ++ 32 :: ascii "EXIST")) ++ [83]) := by
    simp [existsLine, ascii]
  have htrim : trim (existsLine n) = existsLine n := by
    rw [hform]
    exact trim_of_ends (by decide) (by decide) _
  have hexists : (ascii "EXISTS").isSuffixOf (existsLine n) = true := by
    rw [List.isSuffixOf_iff_suffix]
    exact ⟨ascii "*" ++ 32 :: (decimal n ++ [32]), by simp [existsLine]⟩
  simp only [wakes, htrim, hexists]
  simp [existsLine, ascii, List.isPrefixOf]

/-- The search line is not trimmed. -/
theorem trim_searchLine (uids : List ℕ) : trim (searchLine uids) = searchLine uids := by
  rcases List.eq_nil_or_concat uids with rfl | ⟨us, u, rfl⟩
  · decide +kernel
  · obtain ⟨m, d, hd⟩ := (List.eq_nil_or_concat (decimal u)).resolve_left (decimal_ne_nil u)
    rw [List.concat_eq_append] at hd
    have hform : searchLine (us.concat u) =
        42 :: ((32 :: (ascii "SEARCH" ++ us.flatMap (fun u => 32 :: decimal u) ++ 32 :: m)) ++
          [d]) := by
      simp [searchLine, ascii, hd]
    have hlast := decimal_word u d (by simp [hd])
    rw [hform]
    exact trim_of_ends (by decide) hlast _

/-- The search is a hit if and only if it has found something. -/
theorem hit_searchLine (uids : List ℕ) : hit (searchLine uids) ↔ uids ≠ [] := by
  have hstar : words (searchLine uids) =
      ascii "*" :: words (ascii "SEARCH" ++ uids.flatMap fun u => 32 :: decimal u) :=
    words_cons (by decide) (by decide) _
  have hname : (ascii "* SEARCH").isPrefixOf (searchLine uids) = true := by
    rw [List.isPrefixOf_iff_prefix]
    exact ⟨uids.flatMap fun u => 32 :: decimal u, by simp [searchLine, ascii]⟩
  rw [hit, trim_searchLine, hname, hstar, Bool.true_and]
  cases uids with
  | nil => exact iff_of_false (by decide +kernel) (not_not.2 rfl)
  | cons u us =>
    refine iff_of_true ?_ (List.cons_ne_nil u us)
    rw [List.flatMap_cons, List.cons_append, words_cons (by decide) (by decide)]
    cases us with
    | nil => simp [words_word (decimal_ne_nil u) (decimal_word u)]
    | cons v us =>
      rw [List.flatMap_cons, List.cons_append, words_cons (decimal_ne_nil u) (decimal_word u)]
      rfl

/-! ## Steps -/

/-- Outside of a session nothing is left to be read or reported. -/
def Closed (s : State) : Prop := s.phase.inSession ∨ s.stream = [] ∧ s.owed = false

theorem closed_step {s s' : State} {e : Event} (h : Closed s) (hstep : step s e = some s') :
    Closed s' := by
  cases e with
  | arrive =>
    obtain rfl := Option.some.inj hstep
    cases hin : s.phase.inSession with
    | true => exact .inl hin
    | false => exact .inr ⟨(h.resolve_left (by simp [hin])).1, rfl⟩
  | report count =>
    simp only [step] at hstep
    split at hstep
    · rename_i howed
      obtain rfl := Option.some.inj hstep
      exact .inl (h.resolve_right fun hs => Bool.eq_false_iff.1 hs.2 howed)
    · cases hstep
  | other text =>
    simp only [step] at hstep
    split at hstep
    · rename_i hother
      obtain rfl := Option.some.inj hstep
      exact .inl hother.1
    · cases hstep
  | read buffered =>
    obtain ⟨n, u, i, phase, o, stream, int, f, r⟩ := s
    cases phase with
    | completed =>
      simp only [step] at hstep
      split at hstep <;> obtain rfl := Option.some.inj hstep
      · exact .inr ⟨rfl, rfl⟩
      · exact .inl rfl
    | _ => cases hstep
  | line =>
    obtain ⟨n, u, i, phase, o, stream, int, f, r⟩ := s
    cases phase with
    | idling =>
      cases stream with
      | nil => cases hstep
      | cons l rest =>
        simp only [step] at hstep
        split at hstep <;> obtain rfl := Option.some.inj hstep
        · exact .inr ⟨rfl, rfl⟩
        · exact .inl rfl
    | _ => cases hstep
  | fetch =>
    obtain ⟨n, u, i, phase, o, stream, int, f, r⟩ := s
    cases phase with
    | fetching uids =>
      obtain rfl := Option.some.inj hstep
      cases uids <;> exact h
    | _ => cases hstep
  | handle stored marked =>
    obtain ⟨n, u, i, phase, o, stream, int, f, r⟩ := s
    cases phase with
    | handling uids =>
      cases uids with
      | nil => cases hstep
      | cons uid uids =>
        obtain rfl := Option.some.inj hstep
        cases uids <;> (split <;> split <;> exact h)
    | _ => cases hstep
  | search | fetchFail | wake =>
    obtain ⟨n, u, i, phase, o, stream, int, f, r⟩ := s
    cases phase <;> cases hstep <;> exact h
  | select | answer | complete =>
    obtain ⟨n, u, i, phase, o, stream, int, f, r⟩ := s
    cases phase <;> cases hstep
    exact .inl rfl
  | recycle | fail | notSupported =>
    obtain ⟨n, u, i, phase, o, stream, int, f, r⟩ := s
    cases phase <;> cases hstep <;> exact .inr ⟨rfl, rfl⟩

theorem closed_start (interval : Duration) : Closed (start interval) := .inr ⟨rfl, rfl⟩

/-! ## Arrivals -/

/-- Mail that has not been fetched is still to be reported, or is in a line that wakes the loop. -/
def Covered (unseen : List ℕ) (owed : Bool) (stream : List Line) : Prop :=
  unseen = [] ∨ owed ∨ ∃ l ∈ stream, l.wakes

theorem covered_report {unseen : List ℕ} (stream : List Line) (n : ℕ) :
    Covered unseen false (stream ++ [.untagged (existsLine n)]) :=
  .inr (.inr ⟨_, List.mem_append_right _ (List.mem_singleton.2 rfl), wakes_existsLine n⟩)

theorem Covered.append {unseen : List ℕ} {owed : Bool} {stream : List Line}
    (h : Covered unseen owed stream) (more : List Line) : Covered unseen owed (stream ++ more) :=
  h.imp_right (Or.imp_right fun ⟨l, hl, hwakes⟩ => ⟨l, List.mem_append_left _ hl, hwakes⟩)

/-- The reply has a search line in it, and what comes behind that line covers the mail, if the
search has found none. -/
def Searched (s : State) (reply rest : List Line) : Prop :=
  ∃ before uids after, reply = before ++ .untagged (searchLine uids) :: after ∧
    (uids = [] → Covered s.unseen s.owed (after ++ rest))

/-- What the loop keeps, as long as it drops no report. -/
def Awake (s : State) : Prop :=
  match s.phase with
  | .selected => .tagged ∉ s.stream
  | .answered => .tagged ∉ s.stream ∧ Searched s s.stream []
  | .completed => ∃ reply rest, s.stream = reply ++ .tagged :: rest ∧ .tagged ∉ reply ∧
      Searched s reply rest
  | .idling => Covered s.unseen s.owed s.stream
  | _ => True

/-- The line is one of a search. -/
def Line.isSearch : Line → Bool
  | .untagged text => (ascii "* SEARCH").isPrefixOf text
  | .tagged => false

/-- No report is read along with the reply to the search, from the search line on. -/
def Clean (s : State) : Event → Prop
  | .read buffered => ∀ l ∈ (s.reply buffered).1.dropWhile (! ·.isSearch) ++ (s.reply buffered).2.1,
      ¬ l.wakes
  | _ => True

instance decidableClean (s : State) : ∀ e, Decidable (Clean s e)
  | .read buffered => inferInstanceAs (Decidable (∀ l ∈
      (s.reply buffered).1.dropWhile (! ·.isSearch) ++ (s.reply buffered).2.1, ¬ l.wakes))
  | .arrive | .report _ | .other _ | .search | .fetch | .fetchFail | .handle _ _ | .select | .answer
  | .complete | .line | .recycle | .fail | .notSupported | .wake => instDecidableTrue

theorem isSearch_searchLine (uids : List ℕ) : (Line.untagged (searchLine uids)).isSearch := by
  rw [Line.isSearch, List.isPrefixOf_iff_prefix]
  exact ⟨uids.flatMap fun u => 32 :: decimal u, by simp [searchLine, ascii]⟩

/-- What is read, from the first search line on, has all in it that is behind some search line. -/
theorem mem_dropWhile_isSearch {before after : List Line} {uids : List ℕ} {l : Line}
    (hl : l ∈ after) :
    l ∈ (before ++ .untagged (searchLine uids) :: after).dropWhile (! ·.isSearch) := by
  induction before with
  | nil =>
    rw [List.nil_append, List.dropWhile_cons_of_neg (by simp [isSearch_searchLine])]
    exact List.mem_cons_of_mem _ hl
  | cons x before ih =>
    rw [List.cons_append, List.dropWhile_cons]
    split
    · exact ih
    · exact List.mem_cons_of_mem _ (List.mem_append_right _ (List.mem_cons_of_mem _ hl))

theorem reply_eq {s : State} {reply rest : List Line} (hs : s.stream = reply ++ .tagged :: rest)
    (hreply : .tagged ∉ reply) (n : ℕ) : s.reply n = (reply, rest.take n, rest.drop n) := by
  have hall : ∀ l ∈ reply, decide (l ≠ Line.tagged) = true := fun l hl =>
    decide_eq_true fun h => hreply (h ▸ hl)
  simp only [State.reply, hs]
  rw [List.takeWhile_append_of_pos hall, List.dropWhile_append_of_pos hall]
  simp

/-- More lines in the session, and more mail, leave the loop awake. -/
theorem Awake.grow {s : State} (h : Awake s) (hin : s.phase.inSession) {next : ℕ}
    {unseen : List ℕ} {owed : Bool} (more : List Line) (hmore : .tagged ∉ more)
    (hcovered : ∀ stream, Covered s.unseen s.owed stream → Covered unseen owed (stream ++ more)) :
    Awake { s with next, unseen, owed, stream := s.stream ++ more } := by
  obtain ⟨sn, su, si, phase, so, stream, int, f, r⟩ := s
  cases phase with
  | selected =>
    simp only [Awake] at h ⊢
    exact fun hmem => (List.mem_append.1 hmem).elim h hmore
  | answered =>
    obtain ⟨htag, before, uids, after, hsplit, hafter⟩ := h
    refine ⟨fun hmem => (List.mem_append.1 hmem).elim htag hmore, before, uids, after ++ more,
      ?_, ?_⟩
    · simp only at hsplit ⊢
      simp [hsplit]
    · intro huids
      have hall := hcovered _ (hafter huids)
      rwa [List.append_nil] at hall ⊢
  | completed =>
    obtain ⟨reply, rest, hstream, htag, before, uids, after, hsplit, hafter⟩ := h
    refine ⟨reply, rest ++ more, ?_, htag, before, uids, after, hsplit, fun huids => ?_⟩
    · simp only at hstream ⊢
      simp [hstream]
    · have hall := hcovered _ (hafter huids)
      rwa [List.append_assoc] at hall
  | idling => exact hcovered _ h
  | searching | fetching _ | handling _ | opening | sleeping _ | polling => cases hin

/-- When the loop has read the reply, it idles with all mail covered, or goes back. -/
theorem awake_read {s s' : State} {buffered : ℕ} (h : Awake s) (hclean : Clean s (.read buffered))
    (hstep : step s (.read buffered) = some s') : Awake s' := by
  obtain ⟨n, u, i, phase, o, stream, int, f, r⟩ := s
  cases phase with
  | completed =>
    obtain ⟨reply, rest, hstream, htag, before, uids, after, rfl, hcovered⟩ := h
    have hreply := reply_eq hstream htag buffered
    simp only [step, hreply] at hstep
    simp only [Clean, hreply, List.mem_append] at hclean
    split at hstep
    · obtain rfl := Option.some.inj hstep
      trivial
    · rename_i hmiss
      obtain rfl := Option.some.inj hstep
      have huids : uids = [] := by
        by_contra hne
        exact hmiss (List.any_eq_true.2 ⟨.untagged (searchLine uids), by simp,
          (hit_searchLine uids).2 hne⟩)
      refine (hcovered huids).imp_right (Or.imp_right ?_)
      rintro ⟨l, hl, hwakes⟩
      refine ⟨l, ?_, hwakes⟩
      -- a report in the rest of the reply, or in what is buffered, would have been dropped
      rcases List.mem_append.1 hl with hafter | hrest
      · exact absurd hwakes (hclean l (.inl (mem_dropWhile_isSearch hafter)))
      · rw [← List.take_append_drop buffered rest, List.mem_append] at hrest
        exact hrest.resolve_left fun htake => hclean l (.inr htake) hwakes
  | _ => cases hstep

theorem awake_step {s s' : State} {e : Event} (hclosed : Closed s) (h : Awake s)
    (hclean : Clean s e) (hstep : step s e = some s') : Awake s' := by
  cases e with
  | arrive =>
    obtain rfl := Option.some.inj hstep
    cases hin : s.phase.inSession with
    | true => simpa using h.grow hin [] List.not_mem_nil fun _ _ => .inr (.inl rfl)
    | false =>
      obtain ⟨n, u, i, phase, o, stream, int, f, r⟩ := s
      cases phase with
      | selected | answered | completed | idling => cases hin
      | _ => trivial
  | report count =>
    simp only [step] at hstep
    split at hstep
    · rename_i howed
      obtain rfl := Option.some.inj hstep
      have hin := hclosed.resolve_right fun hs => Bool.eq_false_iff.1 hs.2 howed
      exact h.grow hin _ (by simp) fun stream _ => covered_report stream count
    · cases hstep
  | other text =>
    simp only [step] at hstep
    split at hstep
    · rename_i hother
      obtain rfl := Option.some.inj hstep
      exact h.grow hother.1 _ (by simp) fun stream hstream => hstream.append _
    · cases hstep
  | read buffered => exact awake_read h hclean hstep
  | line =>
    obtain ⟨n, u, i, phase, o, stream, int, f, r⟩ := s
    cases phase with
    | idling =>
      cases stream with
      | nil => cases hstep
      | cons l rest =>
        simp only [step] at hstep
        split at hstep
        · obtain rfl := Option.some.inj hstep
          trivial
        · rename_i hquiet
          obtain rfl := Option.some.inj hstep
          refine Or.imp_right (Or.imp_right ?_) (show Covered u o (l :: rest) from h)
          rintro ⟨l', hl', hwakes⟩
          refine ⟨l', (List.mem_cons.1 hl').resolve_left ?_, hwakes⟩
          rintro rfl
          exact hquiet hwakes
    | _ => cases hstep
  | answer =>
    obtain ⟨n, u, i, phase, o, stream, int, f, r⟩ := s
    cases phase with
    | selected =>
      obtain rfl := Option.some.inj hstep
      refine ⟨?_, stream, u, [], rfl, .inl⟩
      simpa using show .tagged ∉ stream from h
    | _ => cases hstep
  | complete =>
    obtain ⟨n, u, i, phase, o, stream, int, f, r⟩ := s
    cases phase with
    | answered =>
      obtain rfl := Option.some.inj hstep
      exact ⟨stream, [], rfl, h⟩
    | _ => cases hstep
  | select =>
    obtain ⟨n, u, i, phase, o, stream, int, f, r⟩ := s
    cases phase with
    | opening =>
      obtain rfl := Option.some.inj hstep
      exact (hclosed.resolve_left Bool.false_ne_true).1 ▸ List.not_mem_nil
    | _ => cases hstep
  | fetch =>
    obtain ⟨n, u, i, phase, o, stream, int, f, r⟩ := s
    cases phase with
    | fetching uids =>
      obtain rfl := Option.some.inj hstep
      cases uids <;> trivial
    | _ => cases hstep
  | handle stored marked =>
    obtain ⟨n, u, i, phase, o, stream, int, f, r⟩ := s
    cases phase with
    | handling uids =>
      rcases uids with - | ⟨uid, - | ⟨uid', uids⟩⟩ <;> cases hstep <;> trivial
    | _ => cases hstep
  | search | fetchFail | wake | recycle | fail | notSupported =>
    obtain ⟨n, u, i, phase, o, stream, int, f, r⟩ := s
    cases phase <;> cases hstep <;> trivial

/-! ## Mail is not slept through -/

/-- The lines that the loop has yet to read take it back to the search, if one of them wakes it. -/
theorem lines_wake {s : State} (hidle : s.phase = .idling) (hwakes : ∃ l ∈ s.stream, l.wakes) :
    ∃ k t, Runs.run step s (List.replicate k .line) = some t ∧ t.phase = .searching ∧
      t.unseen = s.unseen := by
  obtain ⟨n, u, i, phase, o, stream, int, f, r⟩ := s
  obtain rfl : phase = .idling := hidle
  induction stream with
  | nil => simp at hwakes
  | cons l rest ih =>
    by_cases hl : l.wakes
    · refine ⟨1, State.again ⟨n, u, i, .idling, o, l :: rest, int, f, r⟩, ?_, rfl, rfl⟩
      simp [Runs.run, step, hl]
    · obtain ⟨l', hl', hwakes⟩ := hwakes
      have hrest : l' ∈ rest := (List.mem_cons.1 hl').resolve_left fun h => hl (h ▸ hwakes)
      obtain ⟨k, t, hrun, ht⟩ := ih ⟨l', hrest, hwakes⟩
      refine ⟨k + 1, t, Runs.run_cons_iff.2 ⟨_, ?_, hrun⟩, ht⟩
      simp [step, hl]

/-- As long as no report is read along with the reply to a search, mail is covered whenever the loop
idles, and the report that the server owes and the lines that the loop has yet to read are enough
for the loop to go back to the search. -/
theorem idle_wakes {interval : Duration} {es : List Event} {s : State}
    (hclean : Runs.Along step Clean (start interval) es)
    (hrun : Runs.run step (start interval) es = some s) (hidle : s.phase = .idling) (count : ℕ) :
    Covered s.unseen s.owed s.stream ∧ (s.unseen ≠ [] →
      ∃ more t, (∀ e ∈ more, e = .report count ∨ e = .line) ∧ Runs.run step s more = some t ∧
        t.phase = .searching ∧ t.unseen = s.unseen) := by
  have hawake : Closed s ∧ Awake s := Runs.run_invariant (I := fun s => Closed s ∧ Awake s)
    (fun _ _ _ h hclean hstep => ⟨closed_step h.1 hstep, awake_step h.1 h.2 hclean hstep⟩)
    ⟨closed_start interval, trivial⟩ hclean hrun
  have hcovered : Covered s.unseen s.owed s.stream := by
    obtain ⟨n, u, i, phase, o, stream, int, f, r⟩ := s
    obtain rfl : phase = .idling := hidle
    exact hawake.2
  refine ⟨hcovered, fun hmail => ?_⟩
  rcases hcovered with hnone | howed | hwakes
  · exact absurd hnone hmail
  · let s₁ : State := { s with owed := false, stream := s.stream ++ [.untagged (existsLine count)] }
    obtain ⟨k, t, hlines, ht⟩ := lines_wake (s := s₁) hidle
      ⟨.untagged (existsLine count), by simp [s₁], wakes_existsLine count⟩
    refine ⟨.report count :: List.replicate k .line, t, ?_, ?_, ht⟩
    · intro e he
      exact (List.mem_cons.1 he).imp_right List.eq_of_mem_replicate
    · exact Runs.run_cons_iff.2 ⟨s₁, by simp [step, howed, s₁], hlines⟩
  · obtain ⟨k, t, hlines, ht⟩ := lines_wake hidle hwakes
    exact ⟨List.replicate k .line, t, fun e he => .inr (List.eq_of_mem_replicate he), hlines, ht⟩

theorem idle_wakes_arrival :
    Runs.run step (start 1000) [.search, .fetch, .select, .answer, .complete, .read 0, .arrive] =
      some ⟨1, [0], [], .idling, true, [], 1000, 0, true⟩ ∧
    ∃ more t, (∀ e ∈ more, e = .report 1 ∨ e = .line) ∧
      Runs.run step ⟨1, [0], [], .idling, true, [], 1000, 0, true⟩ more = some t ∧
        t.phase = .searching ∧ t.unseen = [0] := by
  have hrun : Runs.run step (start 1000)
      [.search, .fetch, .select, .answer, .complete, .read 0, .arrive] =
        some ⟨1, [0], [], .idling, true, [], 1000, 0, true⟩ := by decide +kernel
  exact ⟨hrun, (idle_wakes (by decide +kernel) hrun rfl 1).2 (List.cons_ne_nil 0 [])⟩

/-- Not so when the report comes between the search line and the end of the reply. -/
example : Runs.run step (start 1000)
    [.search, .fetch, .select, .answer, .arrive, .report 1, .complete, .read 0] =
      some ⟨1, [0], [], .idling, false, [], 1000, 0, true⟩ := by decide +kernel

/-! ## Mail that cannot be fetched -/

/-- The session will have found mail in its search. -/
def Found (s : State) : Prop :=
  match s.phase with
  | .searching | .fetching _ | .opening => True
  | .selected => .tagged ∉ s.stream
  | .answered => .tagged ∉ s.stream ∧ ∃ l ∈ s.stream, l.hit
  | .completed => ∃ reply rest, s.stream = reply ++ .tagged :: rest ∧ .tagged ∉ reply ∧
      ∃ l ∈ reply, l.hit
  | _ => False

/-- More lines in the session, and more mail, change nothing for it. -/
theorem Found.grow {s : State} (h : Found s) (hin : s.phase.inSession) {next : ℕ}
    {unseen : List ℕ} {owed : Bool} (more : List Line) (hmore : .tagged ∉ more) :
    Found { s with next, unseen, owed, stream := s.stream ++ more } := by
  obtain ⟨sn, su, si, phase, so, stream, int, f, r⟩ := s
  cases phase with
  | selected =>
    simp only [Found] at h ⊢
    exact fun hmem => (List.mem_append.1 hmem).elim h hmore
  | answered =>
    obtain ⟨htag, l, hl, hhit⟩ := h
    exact ⟨fun hmem => (List.mem_append.1 hmem).elim htag hmore, l, List.mem_append_left _ hl, hhit⟩
  | completed =>
    obtain ⟨reply, rest, hstream, htag, hhit⟩ := h
    refine ⟨reply, rest ++ more, ?_, htag, hhit⟩
    simp only at hstream ⊢
    simp [hstream]
  | idling => cases h
  | searching | fetching _ | handling _ | opening | sleeping _ | polling => cases hin

/-- No fetch goes through, and no session fails or is without IDLE. -/
def Unfetchable (_ : State) (e : Event) : Prop := e ≠ .fetch ∧ e ≠ .fail ∧ e ≠ .notSupported

instance decidableUnfetchable (s : State) (e : Event) : Decidable (Unfetchable s e) :=
  inferInstanceAs (Decidable (_ ∧ _))

/-- What the loop keeps from `s` on: it has found the mail of `s`, which is in the mailbox, and has
stored none of it. -/
def Busy (s t : State) : Prop :=
  Closed t ∧ Found t ∧ t.unseen ≠ [] ∧ s.unseen <+: t.unseen ∧ t.inbox = s.inbox ∧
    (t.failures = s.failures ∨ t.failures = 0)

theorem busy_step {s t t' : State} {e : Event} (h : Busy s t) (he : Unfetchable t e)
    (hstep : step t e = some t') : Busy s t' := by
  obtain ⟨hclosed, hfound, hne, hle, hinbox, hfailures⟩ := h
  refine ⟨closed_step hclosed hstep, ?_⟩
  cases e with
  | arrive =>
    obtain rfl := Option.some.inj hstep
    refine ⟨?_, by simp, hle.trans (List.prefix_append _ _), hinbox, hfailures⟩
    cases hin : t.phase.inSession with
    | true => simpa using hfound.grow hin [] List.not_mem_nil
    | false =>
      obtain ⟨n, u, i, phase, o, stream, int, f, r⟩ := t
      cases phase with
      | selected | answered | completed | idling => cases hin
      | searching | fetching _ | opening => trivial
      | _ => exact hfound.elim
  | report count =>
    simp only [step] at hstep
    split at hstep
    · rename_i howed
      obtain rfl := Option.some.inj hstep
      have hin := hclosed.resolve_right fun hs => Bool.eq_false_iff.1 hs.2 howed
      exact ⟨hfound.grow hin _ (by simp), hne, hle, hinbox, hfailures⟩
    · cases hstep
  | other text =>
    simp only [step] at hstep
    split at hstep
    · rename_i hother
      obtain rfl := Option.some.inj hstep
      exact ⟨hfound.grow hother.1 _ (by simp), hne, hle, hinbox, hfailures⟩
    · cases hstep
  | read buffered =>
    obtain ⟨n, u, i, phase, o, stream, int, f, r⟩ := t
    cases phase with
    | completed =>
      obtain ⟨reply, rest, hstream, htag, l, hl, hhit⟩ := hfound
      simp only [step, reply_eq hstream htag buffered] at hstep
      rw [if_pos (List.any_eq_true.2 ⟨l, hl, hhit⟩)] at hstep
      obtain rfl := Option.some.inj hstep
      exact ⟨trivial, hne, hle, hinbox, .inr (count_reached {} f)⟩
    | _ => cases hstep
  | answer =>
    obtain ⟨n, u, i, phase, o, stream, int, f, r⟩ := t
    cases phase with
    | selected =>
      obtain rfl := Option.some.inj hstep
      refine ⟨⟨?_, .untagged (searchLine u), by simp, (hit_searchLine u).2 hne⟩, hne, hle, hinbox,
        hfailures⟩
      simpa using show .tagged ∉ stream from hfound
    | _ => cases hstep
  | complete =>
    obtain ⟨n, u, i, phase, o, stream, int, f, r⟩ := t
    cases phase with
    | answered =>
      obtain rfl := Option.some.inj hstep
      exact ⟨⟨stream, [], rfl, hfound⟩, hne, hle, hinbox, hfailures⟩
    | _ => cases hstep
  | select =>
    obtain ⟨n, u, i, phase, o, stream, int, f, r⟩ := t
    cases phase with
    | opening =>
      obtain rfl := Option.some.inj hstep
      exact ⟨(hclosed.resolve_left Bool.false_ne_true).1 ▸ List.not_mem_nil, hne, hle, hinbox,
        hfailures⟩
    | _ => cases hstep
  | search | fetchFail =>
    obtain ⟨n, u, i, phase, o, stream, int, f, r⟩ := t
    cases phase <;> cases hstep <;> exact ⟨hfound, hne, hle, hinbox, hfailures⟩
  | handle | line | recycle | wake =>
    obtain ⟨n, u, i, phase, o, stream, int, f, r⟩ := t
    cases phase <;> first | exact hfound.elim | cases hstep
  | fetch => exact absurd rfl he.1
  | fail => exact absurd rfl he.2.1
  | notSupported => exact absurd rfl he.2.2

/-- As long as mail is in the mailbox and no fetch of it goes through, the loop goes round between
the search and the session without waiting: it does not idle, sleep or poll, stores nothing, and
counts no failure. -/
theorem unfetchable_never_waits {interval : Duration} {es more : List Event} {s t : State}
    (hrun : Runs.run step (start interval) es = some s) (hphase : s.phase = .searching)
    (hmail : s.unseen ≠ []) (hmore : Runs.run step s more = some t)
    (hfetch : Runs.Along step Unfetchable s more) :
    t.phase ≠ .idling ∧ t.phase ≠ .polling ∧ (∀ wait, t.phase ≠ .sleeping wait) ∧
      s.unseen <+: t.unseen ∧ t.inbox = s.inbox ∧ t.failures ≤ s.failures := by
  have hclosed : Closed s :=
    Runs.run_preserves (fun _ _ _ => closed_step) (closed_start interval) hrun
  have hfound : Found s := by simp [Found, hphase]
  obtain ⟨-, hfound, -, hle, hinbox, hfailures⟩ : Busy s t :=
    Runs.run_invariant (fun _ _ _ => busy_step)
      ⟨hclosed, hfound, hmail, List.prefix_refl _, rfl, .inl rfl⟩ hfetch hmore
  refine ⟨?_, ?_, ?_, hle, hinbox, by omega⟩ <;>
    · obtain ⟨n, u, i, phase, o, stream, int, f, r⟩ := t
      cases phase <;> first | exact hfound.elim | simp

theorem unfetchable_never_waits_round :
    Runs.run step ⟨1, [0], [], .searching, false, [], 1000, 0, false⟩
        [.fetchFail, .select, .answer, .complete, .read 0, .search, .fetchFail] =
      some ⟨1, [0], [], .opening, false, [], 1000, 0, false⟩ ∧
    [0] <+: ([0] : List ℕ) ∧ (start 1000).failures ≤ 0 := by
  have hrun : Runs.run step (start 1000) [.arrive] =
      some ⟨1, [0], [], .searching, false, [], 1000, 0, false⟩ := by decide +kernel
  have hmore : Runs.run step ⟨1, [0], [], .searching, false, [], 1000, 0, false⟩
      [.fetchFail, .select, .answer, .complete, .read 0, .search, .fetchFail] =
        some ⟨1, [0], [], .opening, false, [], 1000, 0, false⟩ := by decide +kernel
  have h := unfetchable_never_waits hrun rfl (List.cons_ne_nil 0 []) hmore (by decide +kernel)
  exact ⟨hmore, h.2.2.2.1, h.2.2.2.2.2⟩

end Antie.ImapIdle
