import AxiomCarriers.Fatmama.Pop3

/-!
# The reclamation of accounts

At QUIT a session that holds marks has its mailbox reclaimed if the server has minted the account
and no mail is left in it.  The marks are numbers: they stay when another mailbox is opened, and
that a file was marked does not mean that it is there to be unlinked.

A reclaimed account had a message that the session has unlinked and one that it has marked if and
only if there was mail in it, and marks were made in it, where QUIT came (`quit_reclaims_iff`).
-/

namespace Fatmama.Pop3

open Bytes Runs

/-- The words of a line have no blanks around them. -/
def SplitsWords (py : Str) : Prop := ∀ t, ∀ w ∈ py.split t, py.strip w = w

/-- The files that QUIT unlinks where they are. -/
def removed (stuck : List Path) (s : Connection) : List Path :=
  (filesAt s.snapshot s.deleted).filter (· ∉ stuck)

/-- The directories that hold messages. -/
def mailDirs : List Bytes := [ascii "new", ascii "cur"]

/-- The maildir is the server's to remove, minted by it, and QUIT removes all mail that is there. -/
def Drains (stuck : List Path) (s : Connection) (maildir : Path) : Prop :=
  isManaged maildir ∧ ¬ isProtected maildir ∧
    Table.get s.server.files (marker maildir) ≠ none ∧ marker maildir ∉ removed stuck s ∧
    ∀ f ∈ Table.keys s.server.files, isIn maildir mailDirs f → f ∈ removed stuck s

/-- A mailbox that QUIT would find drained has mail, and a message of it is marked. -/
def Earned (stuck : List Path) (s : Connection) : Prop :=
  s.authed → s.deleted ≠ [] → ∀ mailbox, s.mailbox = some mailbox → mailbox ≠ [] →
    ∀ maildir, Table.get s.server.routes mailbox = some maildir → Drains stuck s maildir →
      (∃ f ∈ Table.keys s.server.files, isIn maildir mailDirs f) ∧
      ∃ f ∈ s.marked, isIn maildir [ascii "new"] f

/-- Every account that is gone after QUIT, in the state `v`, had a message that QUIT has unlinked
and one that the session has marked, holds no message, and was minted and managed by the server. -/
def ReclaimsEarned (stuck : List Path) (s : Connection) (v : State) : Prop :=
  ∀ a maildir, Table.get s.server.routes a = some maildir → Table.get v.routes a = none →
    (∃ f, isIn maildir mailDirs f ∧ Table.get s.server.files f ≠ none ∧
      Table.get (unlinked stuck s).files f = none) ∧
    (∃ f ∈ s.marked, isIn maildir [ascii "new"] f) ∧
    isEmptyMailbox (unlinked stuck s) maildir ∧
    Table.get (unlinked stuck s).files (marker maildir) ≠ none ∧
    isManaged maildir ∧ ¬ isProtected maildir

variable {c : Pop3Config} {stuck : List Path} {s t : Connection} {cmd : Bytes} {args : List Bytes}

/-! ## The mailbox of a session -/

@[simp] theorem mailbox_send (s : Connection) (line : Bytes) : (s.send line).mailbox = s.mailbox :=
  rfl

@[simp] theorem mailbox_foldl_send (s : Connection) (ls : List Bytes) :
    (ls.foldl Connection.send s).mailbox = s.mailbox := by
  induction ls generalizing s with
  | nil => rfl
  | cons l ls ih => rw [List.foldl_cons, ih, mailbox_send]

def KeepsMailbox (s t : Connection) : Prop := t.mailbox = s.mailbox

/-- Only USER opens a mailbox. -/
theorem keepsMailbox_handle (c : Pop3Config) (stuck : List Path) (s : Connection) {cmd : Bytes}
    (hcmd : cmd ≠ ascii "USER") (args : List Bytes) :
    KeepsMailbox s (handle c stuck s cmd args) := by
  have hsend : ∀ line, KeepsMailbox s (s.send line) := fun _ => rfl
  unfold handle
  rw [if_neg hcmd]
  refine iteInduction (fun _ => ?_) fun _ => ?_
  · unfold KeepsMailbox handlePass
    cases hm : s.mailbox with
    | none => exact hm
    | some m => rfl
  refine iteInduction (fun _ => mailbox_foldl_send s _) fun _ => ?_
  refine iteInduction (fun _ => rfl) fun _ => ?_
  refine iteInduction (fun _ => hsend _) fun _ => ?_
  refine iteInduction (fun _ => hsend _) fun _ => ?_
  refine iteInduction (fun _ => ?_) fun _ => ?_
  · cases args with
    | nil => exact mailbox_foldl_send _ _
    | cons arg rest => exact withMessage_cases hsend fun _ _ _ _ _ => hsend _
  refine iteInduction (fun _ => ?_) fun _ => ?_
  · cases args with
    | nil => exact mailbox_foldl_send _ _
    | cons arg rest => exact withMessage_cases hsend fun _ _ _ _ _ => hsend _
  refine iteInduction (fun _ => ?_) fun _ => ?_
  · cases args with
    | nil => exact hsend _
    | cons arg rest =>
      refine withMessage_cases hsend fun n m _ _ _ => ?_
      cases Table.get s.server.files m.1 with
      | none => exact hsend _
      | some data => rfl
  refine iteInduction (fun _ => ?_) fun _ => ?_
  · cases args with
    | nil => exact hsend _
    | cons arg rest => exact withMessage_cases hsend fun _ _ _ _ _ => rfl
  refine iteInduction (fun _ => rfl) fun _ => ?_
  exact iteInduction (fun _ => hsend _) fun _ => hsend _

/-- The name of the mailbox is as it is looked up by a deletion. -/
def Named (c : Pop3Config) (s : Connection) : Prop :=
  ∀ mailbox, s.mailbox = some mailbox → c.py.norm mailbox = mailbox

theorem mem_split_of_nextLine {py : Str} {input rest arg : Bytes} {cmd : Bytes} {args : List Bytes}
    (h : nextLine py input = .command cmd args rest) (harg : arg ∈ args) :
    ∃ line, arg ∈ py.split line := by
  unfold nextLine at h
  split at h
  · cases h
  · dsimp only at h
    split_ifs at h
    split at h
    · cases h
    · rename_i word words hsplit
      obtain ⟨-, rfl, -⟩ := Next.command.inj h
      exact ⟨_, hsplit ▸ List.mem_cons_of_mem _ harg⟩

theorem named_step (hsplit : SplitsWords c.py) {e : Pop3Event} (hs : Named c s)
    (h : pop3Step c s e = some t) : Named c t := by
  cases e with
  | lose =>
    obtain rfl := Option.some.inj h
    exact hs
  | others server =>
    obtain rfl := Option.some.inj h
    exact hs
  | command stuck =>
    simp only [pop3Step] at h
    split_ifs at h
    cases hn : nextLine c.py s.input with
    | closed =>
      rw [hn] at h
      obtain rfl := Option.some.inj h
      exact hs
    | empty rest =>
      rw [hn] at h
      obtain rfl := Option.some.inj h
      exact hs
    | command cmd args rest =>
      rw [hn] at h
      obtain rfl := Option.some.inj h
      by_cases hcmd : cmd = ascii "USER"
      · rw [handle, if_pos hcmd]
        cases args with
        | nil => exact hs
        | cons arg more =>
          obtain ⟨line, harg⟩ := mem_split_of_nextLine hn List.mem_cons_self
          intro mailbox hm
          obtain rfl := Option.some.inj hm
          exact c.py.lower_stripped arg (hsplit line arg harg)
      · intro mailbox hm
        rw [keepsMailbox_handle c stuck { s with input := rest } hcmd args] at hm
        exact hs mailbox hm

/-! ## What QUIT does -/

/-- The server after a command that is not QUIT. -/
theorem server_of_not_quit (hcmd : cmd ≠ ascii "QUIT") (args : List Bytes) :
    (handle c stuck s cmd args).server = s.server := by
  cases handle_does c stuck s cmd args with
  | nothing _ same => exact same.server
  | user _ _ _ _ same => exact same.server
  | dele _ _ _ _ _ same => exact same.server
  | rset _ same => exact same.server
  | quit hquit _ => exact absurd hquit hcmd

theorem server_of_quit (args : List Bytes) :
    (handle c stuck s (ascii "QUIT") args).server = quitServer c stuck s := by
  cases handle_does c stuck s (ascii "QUIT") args with
  | nothing hcmd _ => exact absurd rfl hcmd
  | user _ _ hcmd => exact absurd hcmd (by decide)
  | dele _ _ hcmd => exact absurd rfl hcmd
  | rset hcmd _ => exact absurd rfl hcmd
  | quit _ ht =>
    rw [ht]
    rfl

theorem get_unlinked (stuck : List Path) (s : Connection) (f : Path) :
    Table.get (unlinked stuck s).files f =
      if f ∈ removed stuck s then none else Table.get s.server.files f := by
  by_cases h : f ∈ removed stuck s
  · rw [if_pos h]
    exact (Table.get_foldl_del _ _ f).trans (if_pos h)
  · rw [if_neg h]
    exact (Table.get_foldl_del _ _ f).trans (if_neg h)

/-- QUIT finds the account drained and reclaims it. -/
theorem isReclaimable_iff (maildir : Path) :
    isReclaimable (unlinked stuck s) maildir ↔ Drains stuck s maildir := by
  have hempty : isEmptyMailbox (unlinked stuck s) maildir ↔
      ∀ f ∈ Table.keys s.server.files, isIn maildir mailDirs f → f ∈ removed stuck s := by
    simp only [isEmptyMailbox, List.all_eq_true, Bool.not_eq_true', Table.mem_keys_iff,
      get_unlinked, mailDirs]
    refine forall_congr' fun f => ?_
    by_cases hf : f ∈ removed stuck s
    · simp [hf]
    · simp [hf]
  have hmarker : Table.get (unlinked stuck s).files (marker maildir) ≠ none ↔
      Table.get s.server.files (marker maildir) ≠ none ∧ marker maildir ∉ removed stuck s := by
    rw [get_unlinked]
    by_cases hm : marker maildir ∈ removed stuck s <;> simp [hm]
  rw [isReclaimable, Bool.and_eq_true, Bool.and_eq_true, Bool.and_eq_true, hempty,
    Option.isSome_iff_ne_none, hmarker, Bool.not_eq_true', ← Bool.not_eq_true]
  constructor
  · rintro ⟨⟨⟨⟨hthere, hkept⟩, hmanaged⟩, hprotected⟩, hall⟩
    exact ⟨hmanaged, hprotected, hthere, hkept, hall⟩
  · rintro ⟨hmanaged, hprotected, hthere, hkept, hall⟩
    exact ⟨⟨⟨⟨hthere, hkept⟩, hmanaged⟩, hprotected⟩, hall⟩

/-- What is gone after a reclamation is the mailbox. -/
theorem reclaim_routes {server : State} {mailbox : Address}
    (hnamed : c.py.norm mailbox = mailbox) (a : Address) :
    Table.get (reclaim c.toConfig server mailbox).routes a =
      if a = mailbox ∧ mailbox ≠ [] ∧
          ∃ maildir, Table.get server.routes mailbox = some maildir ∧ isReclaimable server maildir
        then none else Table.get server.routes a := by
  unfold reclaim
  cases hget : Table.get server.routes mailbox with
  | none => simp
  | some maildir =>
    by_cases hrec : isReclaimable server maildir
    · have hprotected : isProtected maildir = false := by
        simp only [isReclaimable, Bool.and_eq_true, Bool.not_eq_true'] at hrec
        exact hrec.1.2
      simp only [if_pos hrec, deleteRoutes, List.foldl_cons, List.foldl_nil, deleteRoute, hnamed,
        hget]
      by_cases hempty : mailbox = []
      · simp [hempty]
      · by_cases ha : a = mailbox
        · simp [ha, hempty, hprotected, hrec]
        · simp [ha, hempty, hprotected, Table.get_del_of_ne (Ne.symm ha)]
    · simp [hrec]

/-- Where QUIT reclaims its mailbox. -/
theorem reclaim_earned_iff {mailbox : Address} (hnamed : c.py.norm mailbox = mailbox)
    (hauthed : s.authed) (hdeleted : s.deleted ≠ []) (hmailbox : s.mailbox = some mailbox) :
    ReclaimsEarned stuck s (reclaim c.toConfig (unlinked stuck s) mailbox) ↔ Earned stuck s := by
  constructor
  · intro h _ _ m hm hne maildir hget hdrains
    obtain rfl := Option.some.inj (hmailbox.symm.trans hm)
    obtain ⟨⟨f, hf, hthere, -⟩, hmarked, -⟩ := h mailbox maildir hget (by
      rw [reclaim_routes hnamed, if_pos]
      exact ⟨rfl, hne, maildir, hget, (isReclaimable_iff maildir).2 hdrains⟩)
    exact ⟨⟨f, Table.mem_keys_iff.2 hthere, hf⟩, hmarked⟩
  · intro hearned a maildir ha hgone
    rw [reclaim_routes hnamed] at hgone
    split_ifs at hgone with hcond
    · obtain ⟨rfl, hne, maildir', hget, hrec⟩ := hcond
      obtain rfl : maildir' = maildir := Option.some.inj (hget.symm.trans ha)
      have hdrains := (isReclaimable_iff maildir').1 hrec
      obtain ⟨⟨f, hkey, hf⟩, hmarked⟩ :=
        hearned hauthed hdeleted a hmailbox hne maildir' hget hdrains
      refine ⟨⟨f, hf, Table.mem_keys_iff.1 hkey, ?_⟩, hmarked, ?_, ?_, hdrains.1, hdrains.2.1⟩
      · rw [get_unlinked, if_pos (hdrains.2.2.2.2 f hkey hf)]
      · exact (Bool.and_eq_true_iff.1 hrec).2
      · rw [get_unlinked, if_neg hdrains.2.2.2.1]
        exact hdrains.2.2.1
    · rw [show (unlinked stuck s).routes = s.server.routes from rfl, ha] at hgone
      cases hgone

/-- At a QUIT. -/
theorem quitServer_earned_iff (hnamed : Named c s) :
    ReclaimsEarned stuck s (quitServer c stuck s) ↔ Earned stuck s := by
  unfold quitServer
  by_cases hauthed : s.authed
  swap
  · rw [if_pos hauthed]
    exact iff_of_true (fun a maildir ha hgone => by rw [ha] at hgone; cases hgone)
      fun h => absurd h hauthed
  rw [if_neg (not_not.2 hauthed)]
  cases hmailbox : s.mailbox with
  | none =>
    refine iff_of_true (fun a maildir ha hgone => ?_) fun _ _ m hm => ?_
    · rw [show (unlinked stuck s).routes = s.server.routes from rfl, ha] at hgone
      cases hgone
    · rw [hmailbox] at hm
      cases hm
  | some mailbox =>
    by_cases hdeleted : s.deleted = []
    · simp only [hdeleted, if_true]
      refine iff_of_true (fun a maildir ha hgone => ?_) fun _ hd => absurd hdeleted hd
      rw [show (unlinked stuck s).routes = s.server.routes from rfl, ha] at hgone
      cases hgone
    · simp only [hdeleted, if_false]
      exact reclaim_earned_iff (hnamed mailbox hmailbox) hauthed hdeleted hmailbox

/-- In every run of a connection, whatever others do in between: a QUIT reclaims only what its
session has earned if and only if the state that it finds is as `Earned` says, and nothing else
reclaims. -/
theorem quit_reclaims_iff {c : Pop3Config} (hsplit : SplitsWords c.py) {server : State}
    {input : Bytes} {es : List Pop3Event} {t : Connection}
    (h : run (pop3Step c) (connected c server input) es = some t) :
    (∀ stuck u, pop3Step c t (.command stuck) = some u →
      (Quits c t → (ReclaimsEarned stuck t u.server ↔ Earned stuck t)) ∧
      (¬ Quits c t → u.server = t.server)) ∧
    ∀ u, pop3Step c t .lose = some u → u.server = t.server := by
  have hnamed : Named c t :=
    run_preserves (I := Named c) (fun _ _ _ hs hstep => named_step hsplit hs hstep)
      (fun _ hm => by cases hm) h
  refine ⟨fun stuck u hu => ⟨?_, fun hquit => ?_⟩, fun u hu => ?_⟩
  · rintro ⟨args, rest, hn⟩
    simp only [pop3Step, hn] at hu
    split_ifs at hu
    rw [← Option.some.inj hu, server_of_quit]
    exact @quitServer_earned_iff c stuck { t with input := rest } hnamed
  · simp only [pop3Step] at hu
    split_ifs at hu
    cases hn : nextLine c.py t.input with
    | closed =>
      rw [hn] at hu
      rw [← Option.some.inj hu]
    | empty rest =>
      rw [hn] at hu
      rw [← Option.some.inj hu]
    | command cmd args rest =>
      rw [hn] at hu
      rw [← Option.some.inj hu]
      exact server_of_not_quit (fun hcmd => hquit ⟨args, rest, hcmd ▸ hn⟩) args
  · rw [← Option.some.inj hu]

/-! ## Samples -/

theorem splitsWords_asciiStr : SplitsWords asciiStr := by
  intro t w hw
  obtain ⟨hw, hne⟩ := List.mem_filter.1 hw
  have hstrip := asciiStrip_append (of_decide_eq_true hne)
    (Separator.notMem_of_mem_splitOnP hw) []
  rwa [List.append_nil, List.rdropWhile_nil, List.append_nil] at hstrip

/-- Two accounts that the server has minted, one with a message. -/
def twoAccounts : State :=
  ⟨[(ascii "a@axiom", [ascii "env", ascii "fatmama-mailbox-a", ascii "inbox"]),
      (ascii "b@axiom", [ascii "env", ascii "fatmama-mailbox-b", ascii "inbox"])],
    [([ascii "env", ascii "fatmama-mailbox-a", ascii "inbox", ascii "new", ascii "1"], ascii "x"),
      ([ascii "env", ascii "fatmama-mailbox-a", ascii "inbox", autoMarker], []),
      ([ascii "env", ascii "fatmama-mailbox-b", ascii "inbox", autoMarker], [])], []⟩

/-- A client pulls its mail, and its account is reclaimed. -/
theorem quit_reclaims_iff_drained :
    ∃ t u, run (pop3Step pop3Config) (connected pop3Config twoAccounts (ascii
        "USER a@axiom\r\nPASS x\r\nDELE 1\r\nQUIT\r\n")) (List.replicate 3 (.command [])) = some t ∧
      pop3Step pop3Config t (.command []) = some u ∧
      Table.keys u.server.routes = [ascii "b@axiom"] ∧ ReclaimsEarned [] t u.server := by
  have hr : (run (pop3Step pop3Config) (connected pop3Config twoAccounts (ascii
      "USER a@axiom\r\nPASS x\r\nDELE 1\r\nQUIT\r\n")) (List.replicate 3 (.command []))).map
        (fun t => decide (t.mailbox = some (ascii "a@axiom") ∧ t.marked =
            [[ascii "env", ascii "fatmama-mailbox-a", ascii "inbox", ascii "new", ascii "1"]] ∧
          t.server = twoAccounts ∧ t.input = ascii "QUIT\r\n" ∧
          (pop3Step pop3Config t (.command [])).map (fun u => Table.keys u.server.routes) =
            some [ascii "b@axiom"])) = some true := by decide +kernel
  obtain ⟨t, ht, hx⟩ := Option.map_eq_some_iff.1 hr
  obtain ⟨hmailbox, hmarked, hserver, hinput, hsome⟩ := of_decide_eq_true hx
  obtain ⟨u, hu, hkeys⟩ := Option.map_eq_some_iff.1 hsome
  have hquit : Quits pop3Config t := ⟨[], [], by rw [hinput]; rfl⟩
  have hearned : Earned [] t := by
    intro _ _ mailbox hm _ maildir hget _
    obtain rfl := Option.some.inj (hmailbox.symm.trans hm)
    rw [hserver] at hget ⊢
    obtain rfl := Option.some.inj hget
    rw [hmarked]
    exact ⟨⟨_, List.mem_cons_self, by decide⟩, _, List.mem_cons_self, by decide⟩
  exact ⟨t, u, ht, hu, hkeys,
    (((quit_reclaims_iff splitsWords_asciiStr ht).1 [] u hu).1 hquit).2 hearned⟩

/-- A client marks a message and looks into an empty mailbox that it has not touched: QUIT removes
that mailbox, and the message stays. -/
theorem idle_reclaimed :
    ∃ t u, run (pop3Step pop3Config) (connected pop3Config twoAccounts (ascii
        "USER a@axiom\r\nPASS x\r\nDELE 1\r\nUSER b@axiom\r\nQUIT\r\n"))
        (List.replicate 4 (.command [])) = some t ∧
      pop3Step pop3Config t (.command []) = some u ∧
      t.marked = [[ascii "env", ascii "fatmama-mailbox-a", ascii "inbox", ascii "new", ascii "1"]] ∧
      t.server = twoAccounts ∧
      u.server.routes = [(ascii "a@axiom",
        [ascii "env", ascii "fatmama-mailbox-a", ascii "inbox"])] ∧
      ¬ ReclaimsEarned [] t u.server := by
  have hr : (run (pop3Step pop3Config) (connected pop3Config twoAccounts (ascii
      "USER a@axiom\r\nPASS x\r\nDELE 1\r\nUSER b@axiom\r\nQUIT\r\n"))
      (List.replicate 4 (.command []))).map (fun t => decide (t.marked =
          [[ascii "env", ascii "fatmama-mailbox-a", ascii "inbox", ascii "new", ascii "1"]] ∧
        t.server = twoAccounts ∧
        (pop3Step pop3Config t (.command [])).map (fun u => u.server.routes) =
          some [(ascii "a@axiom", [ascii "env", ascii "fatmama-mailbox-a", ascii "inbox"])])) =
      some true := by decide +kernel
  obtain ⟨t, ht, hx⟩ := Option.map_eq_some_iff.1 hr
  obtain ⟨hmarked, hserver, hsome⟩ := of_decide_eq_true hx
  obtain ⟨u, hu, hroutes⟩ := Option.map_eq_some_iff.1 hsome
  refine ⟨t, u, ht, hu, hmarked, hserver, hroutes, fun h => ?_⟩
  obtain ⟨-, ⟨f, hf, hin⟩, -⟩ := h (ascii "b@axiom")
    [ascii "env", ascii "fatmama-mailbox-b", ascii "inbox"] (by rw [hserver]; decide)
    (by rw [hroutes]; decide)
  rw [hmarked, List.mem_singleton] at hf
  exact absurd hin (by rw [hf]; decide)

end Fatmama.Pop3
