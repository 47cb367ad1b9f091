import AxiomCarriers.Antie.Custody
import AxiomCarriers.Lib.Run
import Mathlib.Data.List.Perm.Basic
import Mathlib.Data.List.Sort

/-!
# Pushing the replies of a session

The directory of an open session, into which ANTIE deposits replies and from which `pump_replies`
sends them: it lists the directory, and for every file in turn reads it, sends what it has read and
removes the file.  The steps of the deposits come in between.  A reply is known by the number under
which it was computed, so that two replies with one file name stay apart.

`replies_exactly_once` shows that every deposited reply is pending or was sent, and sent no more
than once, as long as no deposit writes over a file, in `tmp/` or in the directory.
-/

namespace Tot.Replies

open Antie.Custody Bytes Runs

/-- The file has the extension `cbor`. -/
def isCbor (name : Name) : Bool := ascii ".cbor" <:+ name && name ≠ ascii ".cbor"

/-- Where `pump_replies` is: before it lists the directory, before a file of its list, after it has
read a file, and after it has sent what it read. -/
inductive Pump
  | idle
  | next (names : List Name)
  | read (name : Name) (reply : ℕ) (names : List Name)
  | sent (name : Name) (names : List Name)
  deriving DecidableEq

/-- An open session: its directory, the deposits under way, and the pump. -/
structure State where
  dir : Option (Dir ℕ)
  jobs : List (Job ℕ)
  /-- The number of the next reply. -/
  next : ℕ
  pump : Pump
  /-- The replies whose deposit has succeeded. -/
  deposited : List ℕ
  /-- The replies sent on the session. -/
  sent : List ℕ
  deriving DecidableEq

inductive Event
  /-- ANTIE has computed the reply to the request. -/
  | reply (requestId : Bytes)
  /-- The next step of a deposit. -/
  | deposit (k : ℕ)
  | list
  | read
  | send
  | remove
  deriving DecidableEq

def opened : State := ⟨some (Dir.empty ℕ), [], 0, .idle, [], []⟩

/-- The names that `pump_replies` goes through, in order. -/
def listing (d : Option (Dir ℕ)) : List Name :=
  ((Table.keys (files d)).filter isCbor).insertionSort (· ≤ ·)

/-- One step of ANTIE or of the pump. -/
def step (s : State) : Event → Option State
  | .reply requestId =>
    match deposit (replyName requestId) s.next with
    | some j => some { s with jobs := s.jobs ++ [j], next := s.next + 1 }
    | none => some s
  | .deposit k =>
    match s.jobs[k]? with
    | some j =>
      match j.advance s.dir with
      | some (d, some j') => some { s with dir := some d, jobs := s.jobs.set k j' }
      | some (d, none) => some { s with
          dir := some d
          jobs := s.jobs.eraseIdx k
          deposited := j.content :: s.deposited }
      | none => some { s with jobs := s.jobs.eraseIdx k }
    | none => none
  | .list => if s.pump = .idle then some { s with pump := .next (listing s.dir) } else none
  | .read =>
    match s.pump with
    | .next (name :: names) =>
      (Table.get (files s.dir) name).map fun reply => { s with pump := .read name reply names }
    | .next [] => some { s with pump := .idle }
    | _ => none
  | .send =>
    match s.pump with
    | .read name reply names => some { s with pump := .sent name names, sent := reply :: s.sent }
    | _ => none
  | .remove =>
    match s.pump with
    | .sent name names => some { s with
        dir := s.dir.map fun d => { d with files := Table.del d.files name }
        pump := .next names }
    | _ => none

/-- Every deposited reply is pending in the directory or was sent, and was sent at most once. -/
def ExactlyOnce (s : State) : Prop :=
  ∀ c ∈ s.deposited, s.sent.count c ≤ 1 ∧
    ((∃ name, Table.get (files s.dir) name = some c) ∨ s.sent.count c = 1)

/-- The deposit writes a name that is free in `tmp/`, and renames to one that is free in the
directory. -/
def FreshNames (s : State) : Event → Prop
  | .deposit k => ∀ j ∈ s.jobs[k]?,
      (j.stage = .write → Table.get (tmpFiles s.dir) j.name = none) ∧
        (j.stage = .rename → Table.get (files s.dir) j.name = none)
  | _ => True

instance (s : State) (e : Event) : Decidable (FreshNames s e) := by
  unfold FreshNames
  split <;> infer_instance

/-! ## The invariant -/

/-- The file the pump has read or sent is still there. -/
def PumpInv (fs : List (Name × ℕ)) (sent : List ℕ) : Pump → Prop
  | .read name reply _ => Table.get fs name = some reply
  | .sent name _ => ∃ c, Table.get fs name = some c ∧ c ∈ sent
  | _ => True

structure Inv (s : State) : Prop where
  fresh : ∀ j ∈ s.jobs, j.content < s.next ∧ j.content ∉ s.deposited
  distinct : (s.jobs.map (·.content)).Nodup
  known : ∀ c ∈ s.deposited, c < s.next
  sent_deposited : ∀ c ∈ s.sent, c ∈ s.deposited
  /-- A deposit about to rename finds its own reply in `tmp/`. -/
  staged : ∀ j ∈ s.jobs, j.stage = .rename → Table.get (tmpFiles s.dir) j.name = some j.content
  stored : ∀ name c, Table.get (files s.dir) name = some c → c ∈ s.deposited
  single : ∀ name name' c, Table.get (files s.dir) name = some c →
    Table.get (files s.dir) name' = some c → name = name'
  /-- Only the file that the pump is about to remove has been sent. -/
  unsent : ∀ name c, Table.get (files s.dir) name = some c → (∀ names, s.pump ≠ .sent name names) →
    c ∉ s.sent
  once : s.sent.Nodup
  kept : ∀ c ∈ s.deposited, (∃ name, Table.get (files s.dir) name = some c) ∨ c ∈ s.sent
  pump : PumpInv (files s.dir) s.sent s.pump

theorem Inv.exactlyOnce {s : State} (h : Inv s) : ExactlyOnce s := by
  intro c hc
  refine ⟨List.nodup_iff_count_le_one.1 h.once c, (h.kept c hc).imp_right fun hs => ?_⟩
  exact List.count_eq_one_of_mem h.once hs

theorem inv_opened : Inv opened := by
  constructor <;> simp [opened, files, Dir.empty, PumpInv]

/-- The invariant does not look at a deposit that has ended. -/
theorem Inv.dropJob {s : State} (h : Inv s) (k : ℕ) : Inv { s with jobs := s.jobs.eraseIdx k } where
  fresh j hj := h.fresh j (List.mem_of_mem_eraseIdx hj)
  distinct := h.distinct.sublist ((List.eraseIdx_sublist s.jobs k).map _)
  known := h.known
  sent_deposited := h.sent_deposited
  staged j hj := h.staged j (List.mem_of_mem_eraseIdx hj)
  stored := h.stored
  single := h.single
  unsent := h.unsent
  once := h.once
  kept := h.kept
  pump := h.pump

/-- The other deposits carry other replies. -/
theorem Inv.ne_of_mem_eraseIdx {s : State} (h : Inv s) {k : ℕ} {j i : Job ℕ}
    (hk : s.jobs[k]? = some j) (hi : i ∈ s.jobs.eraseIdx k) : i.content ≠ j.content := by
  obtain ⟨hlt, rfl⟩ := List.getElem?_eq_some_iff.1 hk
  have hperm := (List.getElem_cons_eraseIdx_perm hlt).map (·.content)
  have hnodup := hperm.nodup_iff.2 h.distinct
  intro he
  exact (List.nodup_cons.1 hnodup).1 (List.mem_map.2 ⟨i, hi, he⟩)

theorem map_content_set {jobs : List (Job ℕ)} {k : ℕ} {j j' : Job ℕ} (hk : jobs[k]? = some j)
    (hj : j'.content = j.content) :
    (jobs.set k j').map (·.content) = jobs.map (·.content) := by
  obtain ⟨hlt, rfl⟩ := List.getElem?_eq_some_iff.1 hk
  have hlt' : k < (jobs.map (·.content)).length := by simpa using hlt
  have hself := List.set_getElem_self hlt'
  rw [List.map_set, hj]
  rwa [List.getElem_map] at hself

/-- A deposit that goes on keeps the invariant when the file it is about to rename is its own. -/
theorem Inv.setJob {s : State} (h : Inv s) {k : ℕ} {j j' : Job ℕ} {d : Dir ℕ}
    (hk : s.jobs[k]? = some j) (hcontent : j'.content = j.content)
    (hfiles : files (some d) = files s.dir)
    (hstaged : ∀ i ∈ s.jobs, i.stage = .rename →
      Table.get (tmpFiles (some d)) i.name = some i.content)
    (hj' : j'.stage = .rename → Table.get (tmpFiles (some d)) j'.name = some j'.content) :
    Inv { s with dir := some d, jobs := s.jobs.set k j' } where
  fresh i hi := by
    rcases List.mem_or_eq_of_mem_set hi with hi | rfl
    · exact h.fresh i hi
    · exact hcontent ▸ h.fresh j (List.mem_of_getElem? hk)
  distinct := (map_content_set hk hcontent).symm ▸ h.distinct
  known := h.known
  sent_deposited := h.sent_deposited
  staged i hi hstage := by
    rcases List.mem_or_eq_of_mem_set hi with hi | rfl
    · exact hstaged i hi hstage
    · exact hj' hstage
  stored := by rw [hfiles]; exact h.stored
  single := by rw [hfiles]; exact h.single
  unsent := by rw [hfiles]; exact h.unsent
  once := h.once
  kept := by rw [hfiles]; exact h.kept
  pump := by rw [hfiles]; exact h.pump

/-- A rename to a free name keeps the invariant and makes its reply a deposited one. -/
theorem Inv.rename {s : State} (h : Inv s) {k : ℕ} {j : Job ℕ} {d : Dir ℕ}
    (hk : s.jobs[k]? = some j) (hstage : j.stage = .rename)
    (hfree : Table.get (files s.dir) j.name = none)
    (hfiles : files (some d) = Table.put (files s.dir) j.name j.content)
    (htmp : tmpFiles (some d) = Table.del (tmpFiles s.dir) j.name) :
    Inv { s with
      dir := some d
      jobs := s.jobs.eraseIdx k
      deposited := j.content :: s.deposited } := by
  have hj := List.mem_of_getElem? hk
  have hnew := h.fresh j hj
  have hne : ∀ name c, Table.get (files s.dir) name = some c → j.name ≠ name := by
    rintro name c hc rfl
    simp [hfree] at hc
  have hget : ∀ name c, Table.get (files (some d)) name = some c →
      (name = j.name ∧ c = j.content) ∨ Table.get (files s.dir) name = some c := by
    intro name c hc
    by_cases hn : j.name = name
    · subst hn
      rw [hfiles, Table.get_put_self] at hc
      exact Or.inl ⟨rfl, (Option.some.inj hc).symm⟩
    · rw [hfiles, Table.get_put_of_ne hn] at hc
      exact Or.inr hc
  have hold : ∀ name c, Table.get (files s.dir) name = some c →
      Table.get (files (some d)) name = some c := by
    intro name c hc
    rw [hfiles, Table.get_put_of_ne (hne name c hc), hc]
  constructor
  · intro i hi
    have hmem := List.mem_of_mem_eraseIdx hi
    exact ⟨(h.fresh i hmem).1,
      List.not_mem_cons_of_ne_of_not_mem (h.ne_of_mem_eraseIdx hk hi) (h.fresh i hmem).2⟩
  · exact (h.dropJob k).distinct
  · exact List.forall_mem_cons.2 ⟨hnew.1, h.known⟩
  · exact fun c hc => List.mem_cons_of_mem _ (h.sent_deposited c hc)
  · intro i hi histage
    have hi' := h.staged i (List.mem_of_mem_eraseIdx hi) histage
    have hname : j.name ≠ i.name := by
      intro he
      rw [← he, h.staged j hj hstage] at hi'
      exact h.ne_of_mem_eraseIdx hk hi (Option.some.inj hi').symm
    rw [htmp, Table.get_del_of_ne hname, hi']
  · intro name c hc
    rcases hget name c hc with ⟨-, rfl⟩ | hc
    · exact List.mem_cons_self
    · exact List.mem_cons_of_mem _ (h.stored name c hc)
  · intro name name' c hc hc'
    rcases hget name c hc with ⟨rfl, rfl⟩ | hc <;> rcases hget name' _ hc' with ⟨rfl, he⟩ | hc'
    · rfl
    · exact absurd (h.stored _ _ hc') hnew.2
    · exact absurd (he ▸ h.stored _ _ hc) hnew.2
    · exact h.single _ _ _ hc hc'
  · intro name c hc hpump
    rcases hget name c hc with ⟨-, rfl⟩ | hc
    · exact fun hs => hnew.2 (h.sent_deposited _ hs)
    · exact h.unsent name c hc hpump
  · exact h.once
  · intro c hc
    rcases List.mem_cons.1 hc with rfl | hc
    · exact Or.inl ⟨j.name, by simp [hfiles]⟩
    · exact (h.kept c hc).imp_left fun hn => hn.imp fun name => hold name c
  · have hp := h.pump
    cases hs : s.pump with
    | idle | next => trivial
    | read name reply names =>
      rw [hs] at hp
      exact hold name reply hp
    | sent name names =>
      rw [hs] at hp
      obtain ⟨c, hc, hmem⟩ := hp
      exact ⟨c, hold name c hc, hmem⟩

/-- The pump may go on to another file when it has removed the last one. -/
theorem Inv.setPump {s : State} (h : Inv s) {p : Pump}
    (hs : ∀ name names, s.pump ≠ .sent name names) (hp : PumpInv (files s.dir) s.sent p) :
    Inv { s with pump := p } where
  fresh := h.fresh
  distinct := h.distinct
  known := h.known
  sent_deposited := h.sent_deposited
  staged := h.staged
  stored := h.stored
  single := h.single
  unsent name c hc _ := h.unsent name c hc (hs name)
  once := h.once
  kept := h.kept
  pump := hp

theorem Inv.newJob {s : State} (h : Inv s) {j : Job ℕ} (hj : j.content = s.next)
    (hstage : j.stage ≠ .rename) :
    Inv { s with jobs := s.jobs ++ [j], next := s.next + 1 } where
  fresh i hi := by
    rcases List.mem_append.1 hi with hi | hi
    · exact ⟨Nat.lt_succ_of_lt (h.fresh i hi).1, (h.fresh i hi).2⟩
    · obtain rfl := List.mem_singleton.1 hi
      exact ⟨by rw [hj]; exact Nat.lt_succ_self _, fun hd => absurd (h.known _ hd) (by simp [hj])⟩
  distinct := by
    rw [List.map_append, List.nodup_append]
    refine ⟨h.distinct, by simp, fun c hc c' hc' => ?_⟩
    obtain ⟨i, hi, rfl⟩ := List.mem_map.1 hc
    have := (h.fresh i hi).1
    simp only [List.map_cons, List.map_nil, List.mem_singleton] at hc'
    omega
  known c hc := Nat.lt_succ_of_lt (h.known c hc)
  sent_deposited := h.sent_deposited
  staged i hi histage := by
    rcases List.mem_append.1 hi with hi | hi
    · exact h.staged i hi histage
    · obtain rfl := List.mem_singleton.1 hi
      exact absurd histage hstage
  stored := h.stored
  single := h.single
  unsent := h.unsent
  once := h.once
  kept := h.kept
  pump := h.pump

theorem Inv.send {s : State} (h : Inv s) {name : Name} {c : ℕ} {names : List Name}
    (hp : s.pump = .read name c names) :
    Inv { s with pump := .sent name names, sent := c :: s.sent } := by
  have hc : Table.get (files s.dir) name = some c := by simpa only [hp, PumpInv] using h.pump
  have hnew : c ∉ s.sent := h.unsent name c hc (by simp [hp])
  refine ⟨h.fresh, h.distinct, h.known, ?_, h.staged, h.stored, h.single, ?_, ?_, ?_, ?_⟩
  · exact List.forall_mem_cons.2 ⟨h.stored name c hc, h.sent_deposited⟩
  · intro name' c' hc' hne hmem
    have hname : name' ≠ name := fun he => hne names (by rw [he])
    rcases List.mem_cons.1 hmem with rfl | hmem
    · exact hname (h.single _ _ _ hc' hc)
    · exact h.unsent name' c' hc' (by simp [hp]) hmem
  · exact List.nodup_cons.2 ⟨hnew, h.once⟩
  · exact fun d hd => (h.kept d hd).imp_right (List.mem_cons_of_mem _)
  · exact ⟨c, hc, List.mem_cons_self⟩

theorem Inv.remove {s : State} (h : Inv s) {name : Name} {names : List Name}
    (hp : s.pump = .sent name names) :
    Inv { s with
      dir := s.dir.map fun d => { d with files := Table.del d.files name }
      pump := .next names } := by
  obtain ⟨c, hc, hsent⟩ : ∃ c, Table.get (files s.dir) name = some c ∧ c ∈ s.sent := by
    simpa only [hp, PumpInv] using h.pump
  have hf : files (s.dir.map fun d => { d with files := Table.del d.files name }) =
      Table.del (files s.dir) name := by cases s.dir <;> rfl
  have ht : tmpFiles (s.dir.map fun d => { d with files := Table.del d.files name }) =
      tmpFiles s.dir := by cases s.dir <;> rfl
  refine ⟨h.fresh, h.distinct, h.known, h.sent_deposited, ?_, ?_, ?_, ?_, h.once, ?_, trivial⟩
  · exact ht.symm ▸ h.staged
  · intro n c' hn
    rw [hf] at hn
    exact h.stored n c' (Table.get_of_get_del hn).2
  · intro n n' c' hn hn'
    rw [hf] at hn hn'
    exact h.single n n' c' (Table.get_of_get_del hn).2 (Table.get_of_get_del hn').2
  · intro n c' hn _
    rw [hf] at hn
    obtain ⟨hne, hn⟩ := Table.get_of_get_del hn
    exact h.unsent n c' hn (by simp [hp, hne])
  · intro c' hc'
    rcases h.kept c' hc' with ⟨n, hn⟩ | hs
    · by_cases hne : name = n
      · subst hne
        rw [hn] at hc
        exact Or.inr (Option.some.inj hc ▸ hsent)
      · exact Or.inl ⟨n, by rw [hf, Table.get_del_of_ne hne, hn]⟩
    · exact Or.inr hs

theorem inv_step (s : State) (e : Event) (s' : State) (h : Inv s) (hC : FreshNames s e)
    (hstep : step s e = some s') : Inv s' := by
  cases e with
  | reply requestId =>
    simp only [step] at hstep
    cases hd : deposit (replyName requestId) s.next with
    | none =>
      simp only [hd] at hstep
      obtain rfl := Option.some.inj hstep
      exact h
    | some j =>
      simp only [hd] at hstep
      obtain rfl := Option.some.inj hstep
      unfold deposit at hd
      split_ifs at hd
      obtain rfl := Option.some.inj hd
      exact h.newJob rfl (by simp)
  | deposit k =>
    cases hk : s.jobs[k]? with
    | none => simp [step, hk] at hstep
    | some j =>
      obtain ⟨hwrite, hrename⟩ := hC j hk
      simp only [step, hk] at hstep
      cases ha : j.advance s.dir with
      | none =>
        simp only [ha] at hstep
        obtain rfl := Option.some.inj hstep
        exact h.dropJob k
      | some r =>
        obtain ⟨d, j'⟩ := r
        rcases advance_cases ha with ⟨hj, rfl, hf, ht⟩ | ⟨hj, rfl, hf, ht⟩ | ⟨hj, rfl, c, hc, hf, ht⟩
        · simp only [ha] at hstep
          obtain rfl := Option.some.inj hstep
          exact h.setJob hk rfl hf (ht ▸ h.staged) (fun hj' => by simp at hj')
        · simp only [ha] at hstep
          obtain rfl := Option.some.inj hstep
          refine h.setJob hk rfl hf (fun i hi hstage => ?_) (fun _ => by simp [ht])
          have hi' := h.staged i hi hstage
          have hname : j.name ≠ i.name := by
            intro he
            simp [← he, hwrite hj] at hi'
          rw [ht, Table.get_put_of_ne hname, hi']
        · simp only [ha] at hstep
          obtain rfl := Option.some.inj hstep
          obtain rfl : c = j.content :=
            Option.some.inj (hc.symm.trans (h.staged j (List.mem_of_getElem? hk) hj))
          exact h.rename hk hj (hrename hj) hf ht
  | list =>
    simp only [step] at hstep
    split_ifs at hstep with hp
    obtain rfl := Option.some.inj hstep
    exact h.setPump (by simp [hp]) trivial
  | read =>
    cases hp : s.pump with
    | idle | read | sent => simp [step, hp] at hstep
    | next names =>
      cases names with
      | nil =>
        simp only [step, hp] at hstep
        obtain rfl := Option.some.inj hstep
        exact h.setPump (by simp [hp]) trivial
      | cons name names =>
        simp only [step, hp] at hstep
        obtain ⟨c, hc, rfl⟩ := Option.map_eq_some_iff.1 hstep
        exact h.setPump (by simp [hp]) hc
  | send =>
    cases hp : s.pump with
    | idle | next | sent => simp [step, hp] at hstep
    | read name c names =>
      simp only [step, hp] at hstep
      obtain rfl := Option.some.inj hstep
      exact h.send hp
  | remove =>
    cases hp : s.pump with
    | idle | next | read => simp [step, hp] at hstep
    | sent name names =>
      simp only [step, hp] at hstep
      obtain rfl := Option.some.inj hstep
      exact h.remove hp

/-- In every run whose deposits find fresh names, each deposited reply is pending or was sent, and
was sent once at most. -/
theorem replies_exactly_once {es : List Event} {s : State}
    (hC : Along step FreshNames opened es) (h : run step opened es = some s) : ExactlyOnce s :=
  (run_invariant inv_step inv_opened hC h).exactlyOnce

/-- A reply deposited and pushed. -/
theorem replies_exactly_once_one :
    ∃ s, run step opened [.reply [114], .deposit 0, .deposit 0, .deposit 0, .list, .read, .send,
      .remove, .read] = some s ∧ s.sent = [0] ∧ ExactlyOnce s := by
  have hr : (run step opened [.reply [114], .deposit 0, .deposit 0, .deposit 0, .list, .read, .send,
      .remove, .read]).map (·.sent) = some [0] := by decide +kernel
  obtain ⟨s, hs, he⟩ := Option.map_eq_some_iff.1 hr
  exact ⟨s, hs, he, replies_exactly_once (by decide +kernel) hs⟩

/-- The client asks twice under one request id.  The second reply is renamed over the file between
the reading and the removal of the first, and removed unsent. -/
theorem replies_lost_under_one_name :
    ∃ s, run step opened [.reply [114], .deposit 0, .deposit 0, .deposit 0, .list, .read,
      .reply [114], .deposit 0, .deposit 0, .deposit 0, .send, .remove] = some s ∧
      s.deposited = [1, 0] ∧ s.sent = [0] ∧ files s.dir = [] ∧ ¬ ExactlyOnce s := by
  have hr : (run step opened [.reply [114], .deposit 0, .deposit 0, .deposit 0, .list, .read,
      .reply [114], .deposit 0, .deposit 0, .deposit 0, .send, .remove]).map
      (fun s => (s.deposited, s.sent, files s.dir)) = some ([1, 0], [0], []) := by decide +kernel
  obtain ⟨s, hs, he⟩ := Option.map_eq_some_iff.1 hr
  obtain ⟨hd, he⟩ := Prod.mk.inj he
  obtain ⟨hsent, hf⟩ := Prod.mk.inj he
  refine ⟨s, hs, hd, hsent, hf, fun h => ?_⟩
  rcases (h 1 (by simp [hd])).2 with ⟨name, hn⟩ | hone
  · simp [hf] at hn
  · simp [hsent] at hone

end Tot.Replies
