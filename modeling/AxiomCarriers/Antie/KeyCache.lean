import AxiomCarriers.Antie.Outgoing
import AxiomCarriers.Lib.Run
import AxiomCarriers.Lib.Table

/-!
# The cache of PGP keys

`lookup_key_bytes` asks a keyserver for the key of an address, and keeps the result for an hour,
also where there is none.  Lookups of many tasks wait for the keyserver at a time, and each locks
the cache only to read it and to write its result.

The cache is compared with the history of all results (`latest`): at any time it answers what the
last result for the address says, as long as that is not old (`Inv.cache`).
-/

namespace Antie.KeyCache

open Bytes Outgoing

/-- `KEY_CACHE_TTL`, in nanoseconds. -/
def keyCacheTtl : ℕ := 3600 * 10 ^ 9

/-- `None` says that no key was found. -/
structure CachedKey where
  bytes : Option Bytes
  fetchedAt : ℕ
  deriving DecidableEq

/-- How the query of the keyserver ends. -/
inductive Fetched
  | noClient
  | unreachable
  | refused (status : ℕ)
  | broken
  | body (bytes : Bytes)
  deriving DecidableEq

/-- What is cached of it; `validCert` says what `Cert::from_bytes` accepts. -/
def Fetched.key (validCert : Bytes → Bool) : Fetched → Option Bytes
  | .body bytes => if validCert bytes then some bytes else none
  | .noClient | .unreachable | .refused _ | .broken => none

/-- The URL that is queried. -/
def queryUrl (email : Bytes) : Bytes :=
  ascii "https://keys.openpgp.org/vks/v1/by-email/" ++
    email.flatMap fun b => if b = 64 then ascii "%40" else [b]

/-! ## The lookups -/

/-- A query, when it was sent, and how many results there were then. -/
structure Query where
  email : Bytes
  url : Bytes
  time : ℕ
  after : ℕ
  deriving DecidableEq

/-- A result of the keyserver. -/
structure Result where
  email : Bytes
  key : Option Bytes
  time : ℕ
  deriving DecidableEq

/-- What a lookup has returned, when, and how many results there were then. -/
structure Answer where
  email : Bytes
  key : Option Bytes
  time : ℕ
  after : ℕ
  deriving DecidableEq

/-- The cache, and the lookups that wait for the keyserver; the rest are ghosts. -/
structure State where
  now : ℕ
  cache : List (Bytes × CachedKey)
  waiting : ℕ → Option Bytes
  queries : List Query
  results : List Result
  answers : List Answer

inductive Event
  | tick (d : ℕ)
  /-- A task calls `lookup_key_bytes`. -/
  | call (k : ℕ) (email : Bytes)
  /-- The query of the task has ended. -/
  | fetched (k : ℕ) (r : Fetched)

def State.answer (s : State) (email : Bytes) (key : Option Bytes) : State :=
  { s with answers := s.answers ++ [⟨email, key, s.now, s.results.length⟩] }

/-- The cache holds nothing fresh: what it holds is removed, and the query is sent. -/
def State.query (s : State) (k : ℕ) (email : Bytes) : State :=
  { s with
    cache := Table.del s.cache email
    waiting := Function.update s.waiting k (some email)
    queries := s.queries ++ [⟨email, queryUrl email, s.now, s.results.length⟩] }

/-- The end of `lookup_key_bytes`, and `cache_negative`. -/
def State.store (s : State) (k : ℕ) (email : Bytes) (key : Option Bytes) : State :=
  { s with
    cache := Table.put s.cache email ⟨key, s.now⟩
    waiting := Function.update s.waiting k none
    results := s.results ++ [⟨email, key, s.now⟩] }

/-- The entry that is not expired. -/
def fresh (now : ℕ) (entry : Option CachedKey) : Option CachedKey :=
  entry.filter fun entry => now - entry.fetchedAt < keyCacheTtl

/-- `lookup_key_bytes`, from lock to lock. -/
def step (validCert : Bytes → Bool) (s : State) : Event → Option State
  | .tick d => some { s with now := s.now + d }
  | .call k email =>
    if s.waiting k = none then
      if ascii "@axiom" <:+ email then some (s.answer email none)
      else match fresh s.now (Table.get s.cache email) with
        | some entry => some (s.answer email entry.bytes)
        | none => some (s.query k email)
    else none
  | .fetched k r => (s.waiting k).map fun email =>
      (s.store k email (r.key validCert)).answer email (r.key validCert)

def init : State := ⟨0, [], fun _ => none, [], [], []⟩

variable {validCert : Bytes → Bool} {s t : State} {e : Event}

theorem step_cases (h : step validCert s e = some t) :
    (∃ d, e = .tick d ∧ t = { s with now := s.now + d }) ∨
    (∃ k email, e = .call k email ∧ ascii "@axiom" <:+ email ∧ t = s.answer email none) ∨
    (∃ k email entry, e = .call k email ∧ ¬ ascii "@axiom" <:+ email ∧
      fresh s.now (Table.get s.cache email) = some entry ∧ t = s.answer email entry.bytes) ∨
    (∃ k email, e = .call k email ∧ ¬ ascii "@axiom" <:+ email ∧
      fresh s.now (Table.get s.cache email) = none ∧ t = s.query k email) ∨
    ∃ k r email, e = .fetched k r ∧ s.waiting k = some email ∧
      t = (s.store k email (r.key validCert)).answer email (r.key validCert) := by
  cases e with
  | tick d => exact .inl ⟨d, rfl, (Option.some.inj h).symm⟩
  | call k email =>
    rw [step] at h
    split_ifs at h with _ hinternal
    · exact .inr (.inl ⟨k, email, rfl, hinternal, (Option.some.inj h).symm⟩)
    · split at h
      · rename_i entry hentry
        exact .inr (.inr (.inl ⟨k, email, entry, rfl, hinternal, hentry, (Option.some.inj h).symm⟩))
      · rename_i hnone
        exact .inr (.inr (.inr (.inl ⟨k, email, rfl, hinternal, hnone, (Option.some.inj h).symm⟩)))
  | fetched k r =>
    obtain ⟨email, hwait, rfl⟩ := Option.map_eq_some_iff.1 h
    exact .inr (.inr (.inr (.inr ⟨k, r, email, rfl, hwait, rfl⟩)))

/-! ## The history of the results -/

/-- What the last result for the address says, unless it is old. -/
def latest (results : List Result) (email : Bytes) (now : ℕ) : Option (Option Bytes) :=
  ((results.filter (·.email = email)).getLast?.filter fun r =>
    now - r.time < keyCacheTtl).map Result.key

theorem latest_concat (results : List Result) (r : Result) (email : Bytes) (now : ℕ) :
    latest (results ++ [r]) email now =
      if r.email = email then if now - r.time < keyCacheTtl then some r.key else none
      else latest results email now := by
  by_cases h : r.email = email
  · simp only [latest, List.filter_append, List.filter_cons, h, decide_true, if_true,
      List.filter_nil, List.getLast?_concat, Option.filter_some, decide_eq_true_eq]
    split_ifs <;> rfl
  · simp [latest, h]

/-- Where the times go on, an address whose last result is old has old results only. -/
theorem old_of_latest {results : List Result} {email : Bytes} {now : ℕ}
    (htimes : results.Pairwise fun r r' => r.time ≤ r'.time) (hnow : ∀ r ∈ results, r.time ≤ now)
    (h : latest results email now = none) {r : Result} (hr : r ∈ results) (he : r.email = email) :
    r.time + keyCacheTtl ≤ now := by
  induction results using List.reverseRecOn with
  | nil => exact absurd hr List.not_mem_nil
  | append_singleton results last ih =>
    obtain ⟨hinit, -, hlast⟩ := List.pairwise_append.1 htimes
    have hbound := hnow last (List.mem_append_right _ List.mem_cons_self)
    rw [latest_concat] at h
    split_ifs at h with hsame hyoung
    · have hold : last.time + keyCacheTtl ≤ now := by omega
      rcases List.mem_append.1 hr with hr | hr
      · have := hlast r hr last List.mem_cons_self
        omega
      · obtain rfl := List.mem_singleton.1 hr
        exact hold
    · rcases List.mem_append.1 hr with hr | hr
      · exact ih hinit (fun x hx => hnow x (List.mem_append_left _ hx)) h hr
      · obtain rfl := List.mem_singleton.1 hr
        exact absurd he hsame

/-- An address of this network gets no key, any other what the last result says, which is not
old. -/
def Answered (results : List Result) (a : Answer) : Prop :=
  a.after ≤ results.length ∧
    if ascii "@axiom" <:+ a.email then a.key = none
    else latest (results.take a.after) a.email a.time = some a.key

/-- A query is for an address of another network, and all that is known of it is old. -/
def Due (results : List Result) (q : Query) : Prop :=
  q.after ≤ results.length ∧ ¬ ascii "@axiom" <:+ q.email ∧
    ∀ r ∈ results.take q.after, r.email = q.email → r.time + keyCacheTtl ≤ q.time

structure Inv (validCert : Bytes → Bool) (s : State) : Prop where
  times : s.results.Pairwise fun r r' => r.time ≤ r'.time
  past : ∀ r ∈ s.results, r.time ≤ s.now
  /-- The cache says what the history says, and will say so as long as it is left alone. -/
  cache : ∀ email now, s.now ≤ now →
    (fresh now (Table.get s.cache email)).map CachedKey.bytes = latest s.results email now
  foreign : ∀ k email, s.waiting k = some email → ¬ ascii "@axiom" <:+ email
  valid : ∀ r ∈ s.results, ∀ cert, r.key = some cert → validCert cert = true
  answers : ∀ a ∈ s.answers, Answered s.results a
  queries : ∀ q ∈ s.queries, Due s.results q

theorem inv_init : Inv validCert init where
  times := List.Pairwise.nil
  past := fun _ h => absurd h List.not_mem_nil
  cache := fun _ _ _ => rfl
  foreign := fun _ _ h => by cases h
  valid := fun _ h => absurd h List.not_mem_nil
  answers := fun _ h => absurd h List.not_mem_nil
  queries := fun _ h => absurd h List.not_mem_nil

theorem Answered.concat {results : List Result} {a : Answer} (h : Answered results a) (r : Result) :
    Answered (results ++ [r]) a := by
  refine ⟨h.1.trans (by simp), ?_⟩
  rw [List.take_append_of_le_length h.1]
  exact h.2

theorem Due.concat {results : List Result} {q : Query} (h : Due results q) (r : Result) :
    Due (results ++ [r]) q := by
  refine ⟨h.1.trans (by simp), h.2.1, ?_⟩
  rw [List.take_append_of_le_length h.1]
  exact h.2.2

theorem Inv.answer (h : Inv validCert s) {email : Bytes} {key : Option Bytes}
    (hkey : if ascii "@axiom" <:+ email then key = none
      else latest s.results email s.now = some key) : Inv validCert (s.answer email key) where
  times := h.times
  past := h.past
  cache := h.cache
  foreign := h.foreign
  valid := h.valid
  answers := fun a ha => by
    rcases List.mem_append.1 ha with ha | ha
    · exact h.answers a ha
    · obtain rfl := List.mem_singleton.1 ha
      refine ⟨le_rfl, ?_⟩
      show if _ then key = none else latest (s.results.take s.results.length) email s.now = some key
      rwa [List.take_length]
  queries := h.queries

/-- What has expired stays expired, so that it can be removed. -/
theorem fresh_none_mono {entry : Option CachedKey} {now later : ℕ} (hle : now ≤ later)
    (h : fresh now entry = none) : fresh later entry = none := by
  cases entry with
  | none => rfl
  | some entry =>
    rw [fresh, Option.filter_some, ite_eq_right_iff] at h
    rw [fresh, Option.filter_some, if_neg]
    intro hyoung
    refine Option.some_ne_none _ (h ?_)
    rw [decide_eq_true_eq] at hyoung ⊢
    exact (Nat.sub_le_sub_right hle _).trans_lt hyoung

/-- Where the cache holds nothing fresh, all that is known of the address is old. -/
theorem Inv.old (h : Inv validCert s) {email : Bytes}
    (hnone : fresh s.now (Table.get s.cache email) = none) {r : Result} (hr : r ∈ s.results)
    (he : r.email = email) : r.time + keyCacheTtl ≤ s.now := by
  have hlatest : latest s.results email s.now = none := by
    rw [← h.cache email s.now le_rfl, hnone]
    rfl
  exact old_of_latest h.times h.past hlatest hr he

theorem Inv.query (h : Inv validCert s) {k : ℕ} {email : Bytes}
    (hforeign : ¬ ascii "@axiom" <:+ email)
    (hnone : fresh s.now (Table.get s.cache email) = none) : Inv validCert (s.query k email) where
  times := h.times
  past := h.past
  cache := fun email' now hnow => by
    show (fresh now (Table.get (Table.del s.cache email) email')).map _ =
      latest s.results email' now
    rw [← h.cache email' now hnow]
    rcases eq_or_ne email email' with rfl | hne
    · rw [Table.get_del_self, fresh_none_mono hnow hnone]
      rfl
    · rw [Table.get_del_of_ne hne]
  foreign := fun j email' (hj : Function.update s.waiting k (some email) j = some email') => by
    rcases eq_or_ne j k with rfl | hne
    · rw [Function.update_self] at hj
      exact Option.some.inj hj ▸ hforeign
    · rw [Function.update_of_ne hne] at hj
      exact h.foreign j email' hj
  valid := h.valid
  answers := h.answers
  queries := fun q hq => by
    rcases List.mem_append.1 hq with hq | hq
    · exact h.queries q hq
    · obtain rfl := List.mem_singleton.1 hq
      exact ⟨le_rfl, hforeign, fun r hr he => h.old hnone (List.mem_of_mem_take hr) he⟩

theorem key_valid {r : Fetched} {cert : Bytes} (h : r.key validCert = some cert) :
    validCert cert = true := by
  cases r with
  | body bytes =>
    rw [Fetched.key] at h
    split_ifs at h with hvalid
    exact Option.some.inj h ▸ hvalid
  | noClient | unreachable | refused | broken => cases h

theorem Inv.store (h : Inv validCert s) {k : ℕ} {email : Bytes} {key : Option Bytes}
    (hkey : ∀ cert, key = some cert → validCert cert = true) :
    Inv validCert (s.store k email key) where
  times := List.pairwise_append.2 ⟨h.times, List.pairwise_singleton _ _, fun r hr r' hr' => by
    obtain rfl := List.mem_singleton.1 hr'
    exact h.past r hr⟩
  past := fun r hr => by
    rcases List.mem_append.1 hr with hr | hr
    · exact h.past r hr
    · obtain rfl := List.mem_singleton.1 hr
      exact le_rfl
  cache := fun email' now hnow => by
    show (fresh now (Table.get (Table.put s.cache email ⟨key, s.now⟩) email')).map _ =
      latest (s.results ++ [⟨email, key, s.now⟩]) email' now
    rw [latest_concat]
    rcases eq_or_ne email email' with rfl | hne
    · rw [Table.get_put_self, if_pos rfl, fresh, Option.filter_some]
      simp only [decide_eq_true_eq]
      split_ifs <;> rfl
    · rw [Table.get_put_of_ne hne, if_neg hne]
      exact h.cache email' now hnow
  foreign := fun j email' (hj : Function.update s.waiting k none j = some email') => by
    rcases eq_or_ne j k with rfl | hne
    · rw [Function.update_self] at hj
      cases hj
    · rw [Function.update_of_ne hne] at hj
      exact h.foreign j email' hj
  valid := fun r hr => by
    rcases List.mem_append.1 hr with hr | hr
    · exact h.valid r hr
    · obtain rfl := List.mem_singleton.1 hr
      exact hkey
  answers := fun a ha => (h.answers a ha).concat _
  queries := fun q hq => (h.queries q hq).concat _

theorem Inv.step (h : Inv validCert s) (ht : step validCert s e = some t) : Inv validCert t := by
  obtain ⟨d, -, rfl⟩ | ⟨k, email, -, hinternal, rfl⟩ | ⟨k, email, entry, -, hforeign, hentry, rfl⟩ |
    ⟨k, email, -, hforeign, hnone, rfl⟩ | ⟨k, r, email, -, hwait, rfl⟩ := step_cases ht
  · exact { h with
      past := fun r hr => (h.past r hr).trans (Nat.le_add_right _ _)
      cache := fun email now hnow => h.cache email now ((Nat.le_add_right _ _).trans hnow) }
  · exact h.answer (by rw [if_pos hinternal])
  · apply h.answer
    rw [if_neg hforeign, ← h.cache email s.now le_rfl, hentry]
    rfl
  · exact h.query hforeign hnone
  · apply (h.store fun cert hcert => key_valid hcert).answer
    rw [if_neg (h.foreign k email hwait)]
    show latest (s.results ++ [⟨email, r.key validCert, s.now⟩]) email s.now = some _
    rw [latest_concat, if_pos rfl, if_pos (by simp [keyCacheTtl])]

theorem run_inv {es : List Event} (h : Runs.run (step validCert) init es = some s) :
    Inv validCert s := Runs.run_preserves (fun _ _ _ hs ht => hs.step ht) inv_init h

/-! ## What a lookup answers -/

/-- The keyserver as a lookup sees it: the last result for each address, unless it is old. -/
def pgpAt (results : List Result) (now : ℕ) (encrypt : Bytes → Bytes → Option Bytes) : Pgp :=
  ⟨fun email => (latest results email now).join, encrypt⟩

/-- Whichever way the lookups interleave, each answers what is known of the very address it asks
for: the last result of the keyserver, which is less than an hour old, or nothing for an address of
this network.  A key that it returns is a valid certificate. -/
theorem answer_latest {es : List Event} (h : Runs.run (step validCert) init es = some s)
    (encrypt : Bytes → Bytes → Option Bytes) : ∀ a ∈ s.answers,
      a.key = (pgpAt (s.results.take a.after) a.time encrypt).lookupKeyBytes a.email ∧
      (¬ ascii "@axiom" <:+ a.email → latest (s.results.take a.after) a.email a.time ≠ none) ∧
      ∀ cert, a.key = some cert → validCert cert = true := by
  intro a ha
  have hinv := run_inv h
  obtain ⟨-, hanswer⟩ := hinv.answers a ha
  rw [Pgp.lookupKeyBytes]
  split_ifs at hanswer ⊢ with hinternal
  · exact ⟨hanswer, fun hforeign => absurd hinternal hforeign, by simp [hanswer]⟩
  · refine ⟨?_, fun _ => by simp [hanswer], fun cert hcert => ?_⟩
    · show a.key = (latest (s.results.take a.after) a.email a.time).join
      rw [hanswer, Option.join_some]
    · obtain ⟨r, hr, hkey⟩ := Option.map_eq_some_iff.1 hanswer
      have hmem := List.mem_of_getLast? (Option.filter_eq_some_iff.1 hr).1
      exact hinv.valid r (List.mem_of_mem_take (List.mem_filter.1 hmem).1) cert (hkey.trans hcert)

/-- Two lookups wait for one address at a time; a later one reads the cache, and the last one asks
again. -/
def sampleEvents : List Event :=
  [.call 0 (ascii "b@x"), .call 1 (ascii "b@x"), .fetched 1 .unreachable, .tick 5,
    .fetched 0 (.body [200]), .call 1 (ascii "b@x"), .call 2 (ascii "v@axiom"),
    .tick keyCacheTtl, .call 1 (ascii "b@x")]

theorem answer_latest_sample : ∃ s, Runs.run (step (· ≠ [])) init sampleEvents = some s ∧
    s.answers.map Answer.key = [none, some [200], some [200], none] ∧ ∀ a ∈ s.answers,
      a.key = (pgpAt (s.results.take a.after) a.time fun _ _ => none).lookupKeyBytes a.email ∧
      (¬ ascii "@axiom" <:+ a.email → latest (s.results.take a.after) a.email a.time ≠ none) ∧
      ∀ cert, a.key = some cert → (decide (cert ≠ [])) = true := by
  obtain ⟨s, hs, hanswers⟩ : ∃ s, Runs.run (step (· ≠ [])) init sampleEvents = some s ∧
      s.answers.map Answer.key = [none, some [200], some [200], none] :=
    ⟨_, rfl, by decide +kernel⟩
  exact ⟨s, hs, hanswers, answer_latest hs _⟩

/-! ## How often the keyserver is asked -/

/-- Nobody asks for an address while another lookup waits for it. -/
def Calm (s : State) : Event → Prop
  | .call _ email => ∀ k, s.waiting k ≠ some email
  | .tick _ | .fetched _ _ => True

/-- A query that was sent is waited for, or has brought a result; two for one address are apart. -/
structure Spaced (s : State) : Prop where
  past : ∀ q ∈ s.queries, q.time ≤ s.now
  settled : ∀ q ∈ s.queries, (∃ k, s.waiting k = some q.email) ∨
    ∃ r ∈ s.results, r.email = q.email ∧ q.time ≤ r.time
  apart : s.queries.Pairwise fun q q' => q.email = q'.email → q.time + keyCacheTtl ≤ q'.time

theorem Spaced.query (h : Spaced s) {k : ℕ} {email : Bytes} (hk : s.waiting k = none)
    (hcalm : ∀ j, s.waiting j ≠ some email)
    (hold : ∀ r ∈ s.results, r.email = email → r.time + keyCacheTtl ≤ s.now) :
    Spaced (s.query k email) where
  past := fun q hq => by
    rcases List.mem_append.1 hq with hq | hq
    · exact h.past q hq
    · obtain rfl := List.mem_singleton.1 hq
      exact le_rfl
  settled := fun q hq => by
    rcases List.mem_append.1 hq with hq | hq
    · refine (h.settled q hq).imp_left ?_
      rintro ⟨j, hj⟩
      have hne : j ≠ k := fun he => by simp [he, hk] at hj
      exact ⟨j, (Function.update_of_ne hne _ _).trans hj⟩
    · obtain rfl := List.mem_singleton.1 hq
      exact .inl ⟨k, Function.update_self ..⟩
  apart := List.pairwise_append.2 ⟨h.apart, List.pairwise_singleton _ _, fun q hq q' hq' he => by
    obtain rfl := List.mem_singleton.1 hq'
    obtain ⟨j, hj⟩ | ⟨r, hr, hemail, hle⟩ := h.settled q hq
    · exact absurd (hj.trans (congrArg some he)) (hcalm j)
    · exact (Nat.add_le_add_right hle _).trans (hold r hr (hemail.trans he))⟩

theorem Spaced.store (h : Spaced s) {k : ℕ} {email : Bytes} (hk : s.waiting k = some email)
    (key : Option Bytes) : Spaced (s.store k email key) where
  past := h.past
  settled := fun q hq => by
    obtain ⟨j, hj⟩ | ⟨r, hr, hemail, hle⟩ := h.settled q hq
    · rcases eq_or_ne j k with rfl | hne
      · refine .inr ⟨_, List.mem_append_right _ List.mem_cons_self, ?_, h.past q hq⟩
        exact Option.some.inj (hk.symm.trans hj)
      · exact .inl ⟨j, (Function.update_of_ne hne _ _).trans hj⟩
    · exact .inr ⟨r, List.mem_append_left _ hr, hemail, hle⟩
  apart := h.apart

theorem Spaced.step (h : Spaced s) (hinv : Inv validCert s) (hcalm : Calm s e)
    (ht : step validCert s e = some t) : Spaced t := by
  obtain ⟨d, -, rfl⟩ | ⟨k, email, -, -, rfl⟩ | ⟨k, email, entry, -, -, -, rfl⟩ |
    ⟨k, email, rfl, -, hnone, rfl⟩ | ⟨k, r, email, -, hwait, rfl⟩ := step_cases ht
  · exact { h with past := fun q hq => (h.past q hq).trans (Nat.le_add_right _ _) }
  · exact ⟨h.past, h.settled, h.apart⟩
  · exact ⟨h.past, h.settled, h.apart⟩
  · have hk : s.waiting k = none := by
      by_contra hk
      rw [step, if_neg hk] at ht
      cases ht
    exact h.query hk hcalm fun r hr he => hinv.old hnone hr he
  · obtain ⟨hpast, hsettled, hapart⟩ := h.store hwait (r.key validCert)
    exact ⟨hpast, hsettled, hapart⟩

/-- The keyserver is asked for addresses of other networks only, and never within an hour after a
result for the address, be it a key or a failure.  Where nobody asks for an address that is being
looked up, two queries for one address are an hour apart. -/
theorem queries_apart {es : List Event} (h : Runs.run (step validCert) init es = some s) :
    (∀ q ∈ s.queries, ¬ ascii "@axiom" <:+ q.email ∧
      ∀ r ∈ s.results.take q.after, r.email = q.email → r.time + keyCacheTtl ≤ q.time) ∧
    (Runs.Along (step validCert) Calm init es →
      s.queries.Pairwise fun q q' => q.email = q'.email → q.time + keyCacheTtl ≤ q'.time) := by
  refine ⟨fun q hq => ((run_inv h).queries q hq).2, fun hcalm => ?_⟩
  have hstart : Spaced init := ⟨by simp [init], by simp [init], List.Pairwise.nil⟩
  have hspaced : Inv validCert s ∧ Spaced s :=
    Runs.run_invariant (I := fun s => Inv validCert s ∧ Spaced s)
      (fun _ _ _ hs hcalm ht => ⟨hs.1.step ht, hs.2.step hs.1 hcalm ht⟩) ⟨inv_init, hstart⟩ hcalm h
  exact hspaced.2.apart

/-- A failure is not asked about again within the hour. -/
theorem queries_apart_failure : ∃ s, Runs.run (step (· ≠ [])) init
      [.call 0 (ascii "b@x"), .fetched 0 .unreachable, .tick (keyCacheTtl - 1),
        .call 0 (ascii "b@x"), .tick 1, .call 0 (ascii "b@x")] = some s ∧
    s.queries.map Query.time = [0, keyCacheTtl] ∧
    (∀ q ∈ s.queries, ¬ ascii "@axiom" <:+ q.email ∧
      ∀ r ∈ s.results.take q.after, r.email = q.email → r.time + keyCacheTtl ≤ q.time) ∧
    s.queries.Pairwise fun q q' => q.email = q'.email → q.time + keyCacheTtl ≤ q'.time := by
  obtain ⟨s, hs, hqueries⟩ : ∃ s, Runs.run (step (· ≠ [])) init
      [.call 0 (ascii "b@x"), .fetched 0 .unreachable, .tick (keyCacheTtl - 1),
        .call 0 (ascii "b@x"), .tick 1, .call 0 (ascii "b@x")] = some s ∧
      s.queries.map Query.time = [0, keyCacheTtl] := ⟨_, rfl, by decide +kernel⟩
  obtain ⟨hold, happart⟩ := queries_apart hs
  refine ⟨s, hs, hqueries, hold, happart ?_⟩
  have hidle : ∀ j, Function.update (Function.update (fun _ => none) 0 (some (ascii "b@x"))) 0
      (none : Option Bytes) j ≠ some (ascii "b@x") := fun j => by
    rw [Function.update_idem, Function.update_apply]
    split_ifs <;> exact (Option.some_ne_none _).symm
  exact ⟨fun _ => (Option.some_ne_none _).symm, trivial, trivial, hidle, trivial, hidle, trivial⟩

end Antie.KeyCache
