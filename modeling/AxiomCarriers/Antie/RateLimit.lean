import AxiomCarriers.Antie.Refusal

/-!
# The rate limiter of the wallets

`check_and_record` lets a request of a wallet through unless the last one that it let through is
less than a cooldown old, and `evict_stale` forgets what is older than two.  `spec` says the same
without a table, with the last request of every wallet, and forgets nothing.

At times that do not decrease the limiter decides as `spec` does, whatever is evicted in between
(`eviction_unseen`).  The gateway asks it about the requests that have a wallet and no overlapping
signatures, and evicts when it knows more than a hundred wallets (`gate_eq_decisions`); so the
cooldown of every wallet is kept (`wallets_cooled`).
-/

namespace Antie.RateLimit

open Bytes Gateway

/-! ## The limiter -/

/-- `WalletRateLimiter`, with nanoseconds of the monotonic clock. -/
structure WalletRateLimiter where
  lastRequest : RateLimiter
  cooldown : ℕ

def WalletRateLimiter.new (cooldownMs : ℕ) : WalletRateLimiter := ⟨[], cooldownMs * 10 ^ 6⟩

/-- `check_and_record`: whether the request is allowed, and the limiter afterwards. -/
def WalletRateLimiter.checkAndRecord (l : WalletRateLimiter) (walletId : Bytes) (now : ℕ) :
    Bool × WalletRateLimiter :=
  match Table.get l.lastRequest walletId with
  | some last =>
    if now - last < l.cooldown then (false, l)
    else (true, { l with lastRequest := Table.put l.lastRequest walletId now })
  | none => (true, { l with lastRequest := Table.put l.lastRequest walletId now })

/-- `evict_stale`; the cutoff may lie before the clock's origin. -/
def WalletRateLimiter.evictStale (l : WalletRateLimiter) (now : ℕ) : WalletRateLimiter :=
  { l with lastRequest := l.lastRequest.filter fun p => now < p.2 + l.cooldown * 2 }

inductive Call
  | check (walletId : Bytes) (now : ℕ)
  | evict (now : ℕ)

def Call.now : Call → ℕ
  | .check _ now | .evict now => now

def Call.isCheck : Call → Bool
  | .check _ _ => true
  | .evict _ => false

structure Decision where
  walletId : Bytes
  now : ℕ
  allowed : Bool
  deriving DecidableEq

/-- What the limiter decides, call after call. -/
def decisions : WalletRateLimiter → List Call → List Decision
  | _, [] => []
  | l, .check walletId now :: calls =>
    ⟨walletId, now, (l.checkAndRecord walletId now).1⟩ ::
      decisions (l.checkAndRecord walletId now).2 calls
  | l, .evict now :: calls => decisions (l.evictStale now) calls

/-! ## What it is for -/

/-- The last request that was allowed, if there is one, is a cooldown old. -/
def allows (cooldown : ℕ) (last : Option ℕ) (now : ℕ) : Bool := last.all fun t => t + cooldown ≤ now

/-- The last allowed request of every wallet after another call. -/
def record (last : Bytes → Option ℕ) (d : Decision) : Bytes → Option ℕ :=
  if d.allowed then Function.update last d.walletId (some d.now) else last

def spec (cooldown : ℕ) : (Bytes → Option ℕ) → List Call → List Decision
  | _, [] => []
  | last, .check walletId now :: calls =>
    let d := ⟨walletId, now, allows cooldown (last walletId) now⟩
    d :: spec cooldown (record last d) calls
  | last, .evict _ :: calls => spec cooldown last calls

/-- The times of the allowed requests of a wallet. -/
def allowedAt (walletId : Bytes) (ds : List Decision) : List ℕ :=
  (ds.filter fun d => d.walletId = walletId && d.allowed).map (·.now)

variable {cooldown : ℕ} {last : Bytes → Option ℕ} {calls : List Call}

/-- Evictions are nothing to `spec`. -/
theorem spec_filter (cooldown : ℕ) (last : Bytes → Option ℕ) (calls : List Call) :
    spec cooldown last (calls.filter Call.isCheck) = spec cooldown last calls := by
  induction calls generalizing last with
  | nil => rfl
  | cons call calls ih =>
    cases call with
    | check walletId now => exact congrArg (_ :: ·) (ih _)
    | evict now => exact ih last

theorem record_self {d : Decision} (h : d.allowed) : record last d d.walletId = some d.now := by
  rw [record, if_pos h, Function.update_self]

theorem record_of_ne {d : Decision} {walletId : Bytes} (h : d.walletId ≠ walletId) :
    record last d walletId = last walletId := by
  unfold record
  split_ifs
  · exact Function.update_of_ne (Ne.symm h) _ _
  · rfl

theorem record_refused {d : Decision} (h : ¬ d.allowed) : record last d = last := if_neg h

theorem allowedAt_cons (walletId : Bytes) (d : Decision) (ds : List Decision) :
    allowedAt walletId (d :: ds) =
      if d.walletId = walletId ∧ d.allowed then d.now :: allowedAt walletId ds
      else allowedAt walletId ds := by
  unfold allowedAt
  split_ifs with h
  · rw [List.filter_cons_of_pos (by simpa using h), List.map_cons]
  · rw [List.filter_cons_of_neg (by simpa using h)]

/-- A decision goes by the last allowed request before it. -/
theorem spec_split {before after : List Decision} {d : Decision}
    (h : spec cooldown last calls = before ++ d :: after) :
    d.allowed = allows cooldown ((allowedAt d.walletId before).getLast?.or (last d.walletId))
      d.now := by
  induction calls generalizing last before with
  | nil => simp [spec] at h
  | cons call calls ih =>
    cases call with
    | evict now => exact ih h
    | check walletId now =>
      rw [spec] at h
      rcases before with - | ⟨b, before⟩
      · obtain ⟨rfl, -⟩ := List.cons.inj h
        rfl
      · obtain ⟨rfl, hrest⟩ := List.cons.inj h
        rw [ih hrest, allowedAt_cons]
        split_ifs with hb
        · obtain ⟨hb, hallowed⟩ := hb
          rw [← hb, record_self hallowed, List.getLast?_cons]
          cases (allowedAt _ before).getLast? <;> rfl
        · by_cases hw : walletId = d.walletId
          · rw [record_refused fun ha => hb ⟨hw, ha⟩]
          · rw [record_of_ne hw]

/-- The allowed requests of a wallet keep the cooldown, also from the last one before. -/
theorem spec_spaced (cooldown : ℕ) (last : Bytes → Option ℕ) (calls : List Call)
    (walletId : Bytes) :
    (∀ t ∈ last walletId, ∀ t' ∈ allowedAt walletId (spec cooldown last calls), t + cooldown ≤ t') ∧
      (allowedAt walletId (spec cooldown last calls)).Pairwise fun t t' => t + cooldown ≤ t' := by
  induction calls generalizing last with
  | nil => simp [spec, allowedAt]
  | cons call calls ih =>
    cases call with
    | evict now => exact ih last
    | check wallet now =>
      rw [spec, allowedAt_cons]
      obtain ⟨hlast, hrest⟩ := ih (record last ⟨wallet, now, allows cooldown (last wallet) now⟩)
      split_ifs with h
      · obtain ⟨hwallet, hallowed⟩ := h
        rw [← hwallet, record_self hallowed] at hlast
        have hnow : ∀ t ∈ last walletId, t + cooldown ≤ now := by
          intro t ht
          rw [← hwallet, Option.mem_def] at ht
          simpa [allows, ht] using hallowed
        rw [← hwallet] at hrest hnow ⊢
        refine ⟨fun t ht t' ht' => ?_, List.pairwise_cons.2 ⟨hlast now rfl, hrest⟩⟩
        rcases List.mem_cons.1 ht' with rfl | ht'
        · exact hnow t ht
        · exact (hnow t ht).trans ((Nat.le_add_right now cooldown).trans (hlast now rfl t' ht'))
      · refine ⟨fun t ht => hlast t ?_, hrest⟩
        by_cases hw : wallet = walletId
        · rw [record_refused fun ha => h ⟨hw, ha⟩]
          exact ht
        · rw [record_of_ne hw]
          exact ht

/-! ## The limiter against its purpose -/

/-- The limiter at a time: it holds the last allowed request of every wallet, or has forgotten it
when it was a cooldown old. -/
structure Tracks (l : WalletRateLimiter) (last : Bytes → Option ℕ) (now : ℕ) : Prop where
  nodup : (Table.keys l.lastRequest).Nodup
  past : ∀ walletId, ∀ t ∈ last walletId, t ≤ now
  held : ∀ walletId, Table.get l.lastRequest walletId = last walletId ∨
    Table.get l.lastRequest walletId = none ∧ ∀ t ∈ last walletId, t + l.cooldown ≤ now

variable {l : WalletRateLimiter} {now : ℕ}

theorem tracks_new (cooldownMs now : ℕ) :
    Tracks (WalletRateLimiter.new cooldownMs) (fun _ => none) now where
  nodup := List.nodup_nil
  past := by simp
  held _ := Or.inl rfl

theorem Tracks.later (h : Tracks l last now) {now' : ℕ} (hle : now ≤ now') :
    Tracks l last now' where
  nodup := h.nodup
  past walletId t ht := (h.past walletId t ht).trans hle
  held walletId := (h.held walletId).imp_right (And.imp_right fun ho t ht => (ho t ht).trans hle)

/-- A request is decided as by the last allowed one. -/
theorem Tracks.decides (h : Tracks l last now) (walletId : Bytes) :
    (l.checkAndRecord walletId now).1 = allows l.cooldown (last walletId) now := by
  unfold WalletRateLimiter.checkAndRecord
  rcases h.held walletId with heq | ⟨hnone, hold⟩
  · rw [heq]
    cases hlast : last walletId with
    | none => rfl
    | some t =>
      have hpast := h.past walletId t hlast
      simp only [allows, Option.all_some]
      split_ifs <;> simp <;> omega
  · rw [hnone]
    cases hlast : last walletId with
    | none => rfl
    | some t => simpa [allows] using hold t hlast

/-- What a request leaves behind, by its decision. -/
theorem checkAndRecord_snd (l : WalletRateLimiter) (walletId : Bytes) (now : ℕ) :
    (l.checkAndRecord walletId now).2 = { l with lastRequest :=
      if (l.checkAndRecord walletId now).1 then Table.put l.lastRequest walletId now
      else l.lastRequest } := by
  unfold WalletRateLimiter.checkAndRecord
  split
  · split_ifs <;> simp_all
  · rfl

theorem Tracks.check (h : Tracks l last now) (walletId : Bytes) :
    Tracks (l.checkAndRecord walletId now).2
      (record last ⟨walletId, now, (l.checkAndRecord walletId now).1⟩) now := by
  rw [checkAndRecord_snd]
  cases hallowed : (l.checkAndRecord walletId now).1 with
  | false => exact h
  | true =>
    constructor
    · exact Table.nodup_put h.nodup walletId now
    · intro w t ht
      by_cases hw : walletId = w
      · subst hw
        rw [record_self rfl] at ht
        exact (Option.some.inj ht).ge
      · rw [record_of_ne hw] at ht
        exact h.past w t ht
    · intro w
      by_cases hw : walletId = w
      · subst hw
        exact Or.inl ((Table.get_put_self _ _ _).trans
          (record_self (d := ⟨walletId, now, true⟩) rfl).symm)
      · rw [record_of_ne hw, if_pos rfl, Table.get_put_of_ne hw]
        exact h.held w

/-- Only what is a cooldown old is forgotten. -/
theorem Tracks.evict (h : Tracks l last now) : Tracks (l.evictStale now) last now := by
  refine ⟨h.nodup.sublist (List.filter_sublist.map _), h.past, fun walletId => ?_⟩
  rw [WalletRateLimiter.evictStale, Table.get_filter_of_nodup h.nodup]
  rcases h.held walletId with heq | ⟨hnone, hold⟩
  · rw [heq]
    cases hlast : last walletId with
    | none => exact Or.inl rfl
    | some t =>
      rw [Option.filter_some]
      split_ifs with hkeep
      · exact Or.inl rfl
      · refine Or.inr ⟨rfl, fun t' ht' => ?_⟩
        rw [← Option.some.inj ht']
        simp only [decide_eq_true_eq, not_lt] at hkeep
        show t + l.cooldown ≤ now
        omega
  · exact Or.inr ⟨by rw [hnone, Option.filter_none], hold⟩

theorem decisions_eq_spec (h : Tracks l last now) (hcalls : ∀ call ∈ calls, now ≤ call.now)
    (hmono : (calls.map Call.now).Pairwise (· ≤ ·)) :
    decisions l calls = spec l.cooldown last calls := by
  induction calls generalizing l last now with
  | nil => rfl
  | cons call calls ih =>
    rw [List.map_cons, List.pairwise_cons, List.forall_mem_map] at hmono
    cases call with
    | check walletId now' =>
      have hnow : Tracks l last now' := h.later (hcalls _ List.mem_cons_self)
      have hdecides : (l.checkAndRecord walletId now').1 =
          allows l.cooldown (last walletId) now' := hnow.decides walletId
      have hkept : (l.checkAndRecord walletId now').2.cooldown = l.cooldown := by
        rw [checkAndRecord_snd]
      have hrest := ih (hnow.check walletId) hmono.1 hmono.2
      rw [hkept] at hrest
      rw [decisions, spec, ← hdecides]
      exact congrArg (_ :: ·) hrest
    | evict now' => exact ih (h.later (hcalls _ List.mem_cons_self)).evict hmono.1 hmono.2

/-- At times that do not decrease, every decision is that of a limiter that evicts nothing: a
request is allowed exactly if the last allowed one of its wallet, if there is one, is a cooldown
old.  So the allowed requests of a wallet are a cooldown apart. -/
theorem eviction_unseen (cooldownMs : ℕ) {calls : List Call}
    (hmono : (calls.map Call.now).Pairwise (· ≤ ·)) :
    decisions (.new cooldownMs) calls =
        decisions (.new cooldownMs) (calls.filter Call.isCheck) ∧
      (∀ before d after, decisions (.new cooldownMs) calls = before ++ d :: after →
        (d.allowed ↔ ∀ t ∈ (allowedAt d.walletId before).getLast?,
          t + cooldownMs * 10 ^ 6 ≤ d.now)) ∧
      ∀ walletId, (allowedAt walletId (decisions (.new cooldownMs) calls)).Pairwise
        fun t t' => t + cooldownMs * 10 ^ 6 ≤ t' := by
  have hspec := decisions_eq_spec (tracks_new cooldownMs 0) (fun _ _ => Nat.zero_le _) hmono
  have hsub : ((calls.filter Call.isCheck).map Call.now).Pairwise (· ≤ ·) :=
    hmono.sublist (List.filter_sublist.map _)
  have hchecks := decisions_eq_spec (tracks_new cooldownMs 0) (fun _ _ => Nat.zero_le _) hsub
  refine ⟨?_, fun before d after h => ?_, fun walletId => ?_⟩
  · rw [hspec, hchecks, spec_filter]
  · rw [hspec] at h
    rw [spec_split h, Option.or_none, allows, Option.all_eq_true]
    simp only [decide_eq_true_eq]
    rfl
  · rw [hspec]
    exact (spec_spaced _ _ _ walletId).2

/-- Of four requests of a wallet the second comes too soon; between the third and the fourth the
limiter forgets the wallet. -/
theorem eviction_unseen_four :
    let calls : List Call := [.check (ascii "a") 0, .check (ascii "a") 1, .check (ascii "a") 2000000,
      .evict 6000000, .check (ascii "a") 6000001]
    decisions (.new 2) calls = decisions (.new 2) (calls.filter Call.isCheck) ∧
      (decisions (.new 2) calls).map (·.allowed) = [true, false, true, true] :=
  ⟨(eviction_unseen 2 (by decide)).1, by decide +kernel⟩

/-! ## In the gateway -/

/-- The request is one that the gateway asks the limiter about: without overlapping signatures, and
of a wallet. -/
def Metered (request : WitnessRequest) : Prop :=
  request.overlappedSignatures = [] ∧ request.transaction.senderWalletId ≠ []

instance (request : WitnessRequest) : Decidable (Metered request) := by
  unfold Metered
  infer_instance

def isRateLimited : Option AntieError → Bool
  | some (.rateLimited _) => true
  | _ => false

/-- How the checks before Core decide about the metered ones of some requests, which come one after
another. -/
def gate : RateLimiter → List (Outside × WitnessRequest) → List Decision
  | _, [] => []
  | limiter, (w, request) :: visits =>
    let rest := gate (admission w limiter request).2 visits
    if Metered request then
      ⟨request.transaction.senderWalletId, w.now, !isRateLimited (admission w limiter request).1⟩ ::
        rest
    else rest

/-- What the limiter is asked meanwhile: it evicts when a request has come through and more than a
hundred wallets are known. -/
def limiterCalls : RateLimiter → List (Outside × WitnessRequest) → List Call
  | _, [] => []
  | limiter, (w, request) :: visits =>
    let rest := limiterCalls (admission w limiter request).2 visits
    let walletId := request.transaction.senderWalletId
    if Metered request then
      if ¬ rateRefuses w limiter request ∧ 100 < (Table.put limiter walletId w.now).length then
        .check walletId w.now :: .evict w.now :: rest
      else .check walletId w.now :: rest
    else rest

variable {w : Outside} {limiter : RateLimiter} {request : WitnessRequest}
  {visits : List (Outside × WitnessRequest)}

/-- Only the limiter refuses with this error. -/
theorem isRateLimited_admission (w : Outside) (limiter : RateLimiter) (request : WitnessRequest) :
    isRateLimited (admission w limiter request).1 = rateRefuses w limiter request := by
  unfold admission
  cases hrefuses : rateRefuses w limiter request with
  | true => rfl
  | false =>
    simp only [Bool.false_eq_true, if_false]
    split_ifs <;> rfl

theorem admission_limiter (w : Outside) (limiter : RateLimiter) (request : WitnessRequest) :
    (admission w limiter request).2 =
      if rateRefuses w limiter request then limiter else recordRequest w limiter request := by
  unfold admission
  split_ifs <;> rfl

theorem admission_unmetered (h : ¬ Metered request) :
    (admission w limiter request).2 = limiter := by
  have hrecord : recordRequest w limiter request = limiter := if_pos (by
    by_contra hnot
    exact h (by simpa [Metered] using hnot))
  rw [admission_limiter, hrecord, ite_self]

/-- The limiter lets a metered request through as the gateway does. -/
theorem checkAndRecord_metered (w : Outside) (limiter : RateLimiter) (h : Metered request) :
    ((WalletRateLimiter.mk limiter w.cooldown).checkAndRecord
      request.transaction.senderWalletId w.now).1 = !rateRefuses w limiter request := by
  have hlimited : rateRefuses w limiter request =
      isLimited w limiter request.transaction.senderWalletId := by
    simp [rateRefuses, h.1, h.2]
  rw [hlimited, isLimited, WalletRateLimiter.checkAndRecord]
  dsimp only
  cases Table.get limiter request.transaction.senderWalletId with
  | none => rfl
  | some last =>
    dsimp only
    split_ifs with hlast <;> simp [hlast]

/-- The gateway takes the decisions of the limiter. -/
theorem gate_eq_decisions {cooldown : ℕ} (limiter : RateLimiter)
    (hcooldown : ∀ v ∈ visits, v.1.cooldown = cooldown) :
    gate limiter visits = decisions ⟨limiter, cooldown⟩ (limiterCalls limiter visits) := by
  induction visits generalizing limiter with
  | nil => rfl
  | cons v visits ih =>
    obtain ⟨w, request⟩ := v
    obtain ⟨rfl, hrest⟩ := List.forall_mem_cons.1 hcooldown
    have hgate := ih (admission w limiter request).2 hrest
    rw [gate, limiterCalls]
    dsimp only
    rw [hgate]
    by_cases hmetered : Metered request
    case neg => rw [if_neg hmetered, if_neg hmetered, admission_unmetered hmetered]
    rw [if_pos hmetered, if_pos hmetered, isRateLimited_admission]
    have hallowed := checkAndRecord_metered w limiter hmetered
    have hrecord : ¬ (request.overlappedSignatures ≠ [] ∨
        request.transaction.senderWalletId = []) := by simp [hmetered.1, hmetered.2]
    have hsnd := checkAndRecord_snd ⟨limiter, w.cooldown⟩ request.transaction.senderWalletId w.now
    rw [hallowed] at hsnd
    rw [admission_limiter]
    cases hrefuses : rateRefuses w limiter request with
    | true =>
      rw [hrefuses] at hallowed hsnd
      simp only [not_true_eq_false, false_and, if_false, if_true, decisions, hallowed, hsnd,
        Bool.not_true, Bool.false_eq_true]
    | false =>
      rw [hrefuses] at hallowed hsnd
      simp only [Bool.false_eq_true, not_false_eq_true, true_and, if_false, Bool.not_false, if_true,
        recordRequest, if_neg hrecord] at hsnd ⊢
      split_ifs with hmany
      · simp only [decisions, hallowed, hsnd]
        rfl
      · simp only [decisions, hallowed, hsnd, Bool.not_false]

theorem limiterCalls_now (limiter : RateLimiter) (visits : List (Outside × WitnessRequest)) :
    ∀ call ∈ limiterCalls limiter visits, ∃ v ∈ visits, call.now = v.1.now := by
  induction visits generalizing limiter with
  | nil => simp [limiterCalls]
  | cons v visits ih =>
    obtain ⟨w, request⟩ := v
    have hrest : ∀ call ∈ limiterCalls (admission w limiter request).2 visits,
        ∃ v ∈ (w, request) :: visits, call.now = v.1.now := by
      intro call hcall
      obtain ⟨v, hv, hnow⟩ := ih _ call hcall
      exact ⟨v, List.mem_cons_of_mem _ hv, hnow⟩
    rw [limiterCalls]
    split_ifs
    · exact List.forall_mem_cons.2 ⟨⟨_, List.mem_cons_self, rfl⟩,
        List.forall_mem_cons.2 ⟨⟨_, List.mem_cons_self, rfl⟩, hrest⟩⟩
    · exact List.forall_mem_cons.2 ⟨⟨_, List.mem_cons_self, rfl⟩, hrest⟩
    · exact hrest

theorem limiterCalls_mono (limiter : RateLimiter)
    (hmono : visits.Pairwise fun v v' => v.1.now ≤ v'.1.now) :
    ((limiterCalls limiter visits).map Call.now).Pairwise (· ≤ ·) := by
  induction visits generalizing limiter with
  | nil => exact List.Pairwise.nil
  | cons v visits ih =>
    obtain ⟨w, request⟩ := v
    obtain ⟨hfirst, hrest⟩ := List.pairwise_cons.1 hmono
    have hmap := ih (admission w limiter request).2 hrest
    have hle : ∀ now ∈ (limiterCalls (admission w limiter request).2 visits).map Call.now,
        w.now ≤ now := by
      intro now hnow
      obtain ⟨call, hcall, rfl⟩ := List.mem_map.1 hnow
      obtain ⟨v, hv, hnow⟩ := limiterCalls_now _ visits call hcall
      exact hnow ▸ hfirst v hv
    rw [limiterCalls]
    split_ifs
    · exact List.pairwise_cons.2 ⟨List.forall_mem_cons.2 ⟨le_rfl, hle⟩,
        List.pairwise_cons.2 ⟨hle, hmap⟩⟩
    · exact List.pairwise_cons.2 ⟨hle, hmap⟩
    · exact hmap

/-- At times that do not decrease, a metered request is refused as rate limited exactly when the
last metered one of its wallet that was not is less than a cooldown old, however many wallets there
are and whatever else the checks before Core refuse.  So those of a wallet that are not refused so
are a cooldown apart. -/
theorem wallets_cooled {cooldown : ℕ} (hcooldown : ∀ v ∈ visits, v.1.cooldown = cooldown)
    (hmono : visits.Pairwise fun v v' => v.1.now ≤ v'.1.now) :
    (∀ before d after, gate [] visits = before ++ d :: after →
      (d.allowed ↔ ∀ t ∈ (allowedAt d.walletId before).getLast?, t + cooldown ≤ d.now)) ∧
      ∀ walletId, (allowedAt walletId (gate [] visits)).Pairwise fun t t' => t + cooldown ≤ t' := by
  have htracks : Tracks ⟨[], cooldown⟩ (fun _ => none) 0 :=
    ⟨List.nodup_nil, by simp, fun _ => .inl rfl⟩
  have hspec := decisions_eq_spec htracks (fun _ _ => Nat.zero_le _) (limiterCalls_mono [] hmono)
  rw [gate_eq_decisions [] hcooldown, hspec]
  refine ⟨fun before d after h => ?_, fun walletId => (spec_spaced _ _ _ walletId).2⟩
  rw [spec_split h, Option.or_none, allows, Option.all_eq_true]
  simp only [decide_eq_true_eq]
  rfl

/-- Three payments of a wallet; the second one comes too soon. -/
theorem wallets_cooled_three :
    let visits := [100, 102, 105].map fun now => ({ sampleGateway with now }, payment)
    (gate [] visits).map (·.allowed) = [true, false, true] ∧
      (allowedAt payment.transaction.senderWalletId (gate [] visits)).Pairwise
        fun t t' => t + 5 ≤ t' := by
  refine ⟨by decide +kernel, (wallets_cooled ?_ ?_).2 _⟩
  · simp [sampleGateway]
  · simp

end Antie.RateLimit
