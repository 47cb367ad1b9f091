import AxiomCarriers.Fatmama.Collector
import AxiomCarriers.Tot.Stamp

/-!
# Cheques in the pickup directory

Several instances of ANTIE deposit cheques below one base directory (`deposit_atomic`): each creates
its file in `tmp`, writes it and renames it into `new`, from where the collectors of FATMAMA take
it.  The name of the file is made of the transaction id alone, so that two cheques for one
transaction share it.

A cheque that was deposited is lost where another under its name is renamed over it, or written into
its file, or put in the place of one that a collector has read and is about to remove.
`deposits_survive` says that in all other runs every deposited cheque lies in `new` with its own
bytes or was handed on.
-/

namespace Seam.Deposits

open Bytes Runs Fatmama
open Fatmama.Collector (Which Stage Loop Setup tmpPath newPath)

/-! ## Deposits -/

/-- `hex::encode`. -/
def hexEncode (b : Bytes) : Bytes := b.flatMap fun x => [Tot.hexDigit (x / 16), Tot.hexDigit (x % 16)]

/-- The name that `handle_witness_request` gives to the file of a cheque. -/
def chequeName (txid : Bytes) : Bytes := hexEncode txid ++ ascii ".cheque.eml"

def isChequeName (name : Bytes) : Bool := ascii ".cheque.eml" <:+ name

/-- `deposit_atomic` under way: what it was called with, how much it has written, and where the file
lies now that it has opened, `none` when it is gone. -/
structure Deposit where
  domain : Bytes
  txid : Bytes
  bytes : Bytes
  written : ℕ
  fd : Option Path
  deriving DecidableEq

def Deposit.tmp (base : Path) (d : Deposit) : Path := tmpPath (base ++ [d.domain]) (chequeName d.txid)

def Deposit.dst (base : Path) (d : Deposit) : Path := newPath (base ++ [d.domain]) (chequeName d.txid)

/-- The file is still being written. -/
def Deposit.Writing (d : Deposit) : Prop := d.written < d.bytes.length

instance (d : Deposit) : Decidable d.Writing := Nat.decLt _ _

/-- Bytes written into a file at an offset; a gap is filled with zeros. -/
def writeAt (b : Bytes) (offset : ℕ) (d : Bytes) : Bytes :=
  b.take offset ++ List.replicate (offset - b.length) 0 ++ d ++ b.drop (offset + d.length)

/-! ## Instances and collectors -/

/-- The files and the collectors, and the deposits under way in all instances; the cheques whose
deposit has succeeded, and the mails that the collectors have handed on, with the files they came
from. -/
structure System where
  collector : Collector.State
  deposits : List (ℕ × Deposit)
  deposited : List (Path × Bytes)
  handed : List (Path × Bytes)

inductive Event
  /-- An instance creates the file in `tmp`, or empties the one that is there. -/
  | opens (i : ℕ) (domain txid bytes : Bytes)
  /-- It writes so many bytes more. -/
  | writes (i n : ℕ)
  | renames (i : ℕ)
  /-- An error ends the deposit. -/
  | fails (i : ℕ)
  /-- A step of a collector, or of others that write no cheques. -/
  | collector (e : Collector.Event)

def setFiles (s : Collector.State) (files : List (Path × Bytes)) : Collector.State :=
  { s with files := files }

/-- A file that was open at `src` lies at `dst`, and what was there is gone. -/
def moved (src dst : Path) (fd : Option Path) : Option Path :=
  if fd = some src then some dst else if fd = some dst then none else fd

def mapFd (f : Option Path → Option Path) (deposits : List (ℕ × Deposit)) : List (ℕ × Deposit) :=
  deposits.map fun x => (x.1, { x.2 with fd := f x.2.fd })

/-- The file that the step of a collector names or removes by itself. -/
def namedBy : Collector.Event → Option Bytes
  | .put _ name _ | .write _ name _ => some name
  | .remove path => path.getLast?
  | _ => none

/-- What the step of a collector hands on: a mail that is put into a mailbox, or accepted by another
site. -/
def handsOn (s : Collector.State) : Collector.Event → List (Path × Bytes)
  | .rename w true =>
    match (s.loops w).stage with
    | .written f _ dest name =>
      (Table.get s.files (tmpPath dest name)).toList.map fun content => (f, content)
    | _ => []
  | .dialed w true =>
    match (s.loops w).stage with
    | .dial f raw _ _ => [(f, raw)]
    | _ => []
  | _ => []

/-- `std::fs::rename` at the end of a deposit. -/
def rename (base : Path) (s : System) (i : ℕ) (d : Deposit) : System :=
  let deposits := Table.del s.deposits i
  match Table.get s.collector.files (d.tmp base) with
  | none => { s with deposits := deposits }
  | some content =>
    { s with
      collector := setFiles s.collector
        (Table.put (Table.del s.collector.files (d.tmp base)) (d.dst base) content)
      deposits := mapFd (moved (d.tmp base) (d.dst base)) deposits
      deposited := (d.dst base, d.bytes) :: s.deposited }

/-- One `write` to the file of a deposit. -/
def writeChunk (s : System) (i : ℕ) (d : Deposit) (n : ℕ) : System :=
  let chunk := (d.bytes.drop d.written).take n
  let s := { s with deposits := Table.put s.deposits i { d with written := d.written + n } }
  match d.fd with
  | none => s
  | some p =>
    { s with collector := setFiles s.collector (Table.put s.collector.files p
      (writeAt ((Table.get s.collector.files p).getD []) d.written chunk)) }

def step (c : Setup) (base : Path) (s : System) : Event → Option System
  | .opens i domain txid bytes =>
    if Table.get s.deposits i ≠ none then none
    else
      let tmp := tmpPath (base ++ [domain]) (chequeName txid)
      some { s with
        collector := setFiles s.collector (Table.put s.collector.files tmp [])
        deposits := Table.put s.deposits i ⟨domain, txid, bytes, 0, some tmp⟩ }
  | .writes i n =>
    match Table.get s.deposits i with
    | some d => if n = 0 ∨ d.bytes.length < d.written + n then none else some (writeChunk s i d n)
    | none => none
  | .renames i =>
    match Table.get s.deposits i with
    | some d => if d.Writing then none else some (rename base s i d)
    | none => none
  | .fails i => some { s with deposits := Table.del s.deposits i }
  | .collector e =>
    if (namedBy e).any isChequeName then none
    else (Collector.step c s.collector e).map fun t => { s with
      collector := t
      deposits := mapFd (fun fd => fd.filter fun p => Table.get t.files p ≠ none) s.deposits
      handed := handsOn s.collector e ++ s.handed }

/-- FATMAMA starts before any cheque has come. -/
def start (routes : List (Address × Path)) : System := ⟨Collector.start routes, [], [], []⟩

/-! ## The condition -/

/-- The file that a collector has taken, and what it has read there until it has handed it on. -/
def taken : Stage → Option (Path × Option Bytes)
  | .read f raw | .deliver f raw _ | .written f raw _ _ | .dial f raw _ _ => some (f, some raw)
  | .unlink f _ => some (f, none)
  | .next | .stopped => none

/-- No collector has taken another mail from where the cheque is put. -/
def Untaken (s : System) (dst : Path) (bytes : Bytes) : Prop :=
  ∀ w, ∀ x ∈ taken (s.collector.loops w).stage, x.1 = dst →
    x.2 = some bytes ∨ (dst, bytes) ∈ s.handed

/-- A cheque that is renamed into `new` is whole in its file, which no other deposit has open; no
other cheque under its name lies there that was not handed on, and no collector has taken
another. -/
def Alone (base : Path) (s : System) (i : ℕ) (d : Deposit) : Prop :=
  match Table.get s.collector.files (d.tmp base) with
  | none => True
  | some content => content = d.bytes ∧
    (∀ x ∈ s.deposits, x.1 ≠ i → x.2.Writing → x.2.fd ≠ some (d.tmp base)) ∧
    (∀ b ∈ Table.get s.collector.files (d.dst base), b = d.bytes ∨ (d.dst base, b) ∈ s.handed) ∧
    Untaken s (d.dst base) d.bytes

/-- Every cheque is alone when it is renamed. -/
def Apart (base : Path) (s : System) : Event → Prop
  | .renames i => ∀ d ∈ Table.get s.deposits i, Alone base s i d
  | _ => True

/-- Every cheque that was deposited lies in `new` with its own bytes or was handed on. -/
def System.Survives (s : System) : Prop :=
  ∀ x ∈ s.deposited, Table.get s.collector.files x.1 = some x.2 ∨ x ∈ s.handed

/-! ## Paths -/

def InNew (f : Path) : Prop := f.dropLast.getLast? = some (ascii "new")

def IsCheque (f : Path) : Prop := ∃ name, f.getLast? = some name ∧ isChequeName name

theorem isChequeName_chequeName (txid : Bytes) : isChequeName (chequeName txid) :=
  decide_eq_true (List.suffix_append (hexEncode txid) _)

theorem getLast?_tmpPath (dest : Path) (name : Bytes) : (tmpPath dest name).getLast? = some name := by
  simp [tmpPath]

theorem getLast?_newPath (dest : Path) (name : Bytes) : (newPath dest name).getLast? = some name := by
  simp [newPath]

theorem inNew_newPath (dest : Path) (name : Bytes) : InNew (newPath dest name) := by
  have hsplit : newPath dest name = (dest ++ [ascii "new"]) ++ [name] := by simp [newPath]
  rw [InNew, hsplit, List.dropLast_concat]
  simp

theorem not_inNew_tmpPath (dest : Path) (name : Bytes) : ¬ InNew (tmpPath dest name) := by
  have hsplit : tmpPath dest name = (dest ++ [ascii "tmp"]) ++ [name] := by simp [tmpPath]
  rw [InNew, hsplit, List.dropLast_concat]
  simp [ascii]

theorem newPath_ne_tmpPath (dest dest' : Path) (name name' : Bytes) :
    newPath dest name ≠ tmpPath dest' name' := fun h =>
  not_inNew_tmpPath dest' name' (h ▸ inNew_newPath dest name)

theorem isCheque_dst (base : Path) (d : Deposit) : IsCheque (d.dst base) :=
  ⟨chequeName d.txid, getLast?_newPath _ _, isChequeName_chequeName d.txid⟩

/-! ## The collectors -/

/-- What a collector has taken is what lies there, or that was handed on. -/
def Guarded (handed : List (Path × Bytes)) (s : Collector.State) (f : Path) (raw : Option Bytes) :
    Prop :=
  InNew f ∧ (IsCheque f → ∀ b, Table.get s.files f = some b → raw = some b ∨ (f, b) ∈ handed)

/-- What a collector has written into a mailbox is what it has read. -/
def Written (s : Collector.State) : Stage → Prop
  | .written _ raw dest name => name ∈ s.used ∧ ¬ isChequeName name ∧
      ∀ b, Table.get s.files (tmpPath dest name) = some b → b = raw
  | _ => True

structure CollectorInv (handed : List (Path × Bytes)) (s : Collector.State) : Prop where
  queue : ∀ w, ∀ f ∈ (s.loops w).queue, InNew f
  taken : ∀ w, ∀ x ∈ taken (s.loops w).stage, Guarded handed s x.1 x.2
  written : ∀ w, Written s (s.loops w).stage

/-- Where the collectors look, `t` has nothing that `s` has not. -/
structure Less (s t : Collector.State) : Prop where
  used : s.used ⊆ t.used
  cheque : ∀ f b, InNew f → IsCheque f → Table.get t.files f = some b → Table.get s.files f = some b
  tmp : ∀ dest name b, name ∈ s.used → ¬ isChequeName name →
    Table.get t.files (tmpPath dest name) = some b → Table.get s.files (tmpPath dest name) = some b

variable {c : Setup} {handed handed' : List (Path × Bytes)} {s t : Collector.State}

theorem Less.of_files (hused : t.used = s.used) (hfiles : t.files = s.files) : Less s t where
  used := by rw [hused]; exact fun _ h => h
  cheque _ _ _ _ h := hfiles ▸ h
  tmp _ _ _ _ _ h := hfiles ▸ h

theorem less_placed (s : Collector.State) (placed : List Collector.Placed) :
    Less s { s with placed := placed } := Less.of_files rfl rfl

theorem less_accepted (s : Collector.State) (accepted : List Path) :
    Less s { s with accepted := accepted } := Less.of_files rfl rfl

theorem less_del (f : Path) : Less s { s with files := Table.del s.files f } where
  used _ h := h
  cheque _ _ _ _ h := (Table.get_of_get_del h).2
  tmp _ _ _ _ _ h := (Table.get_of_get_del h).2

theorem Less.trans {u : Collector.State} (h : Less s t) (h' : Less t u) : Less s u where
  used := List.Subset.trans h.used h'.used
  cheque f b hf hc hb := h.cheque f b hf hc (h'.cheque f b hf hc hb)
  tmp dest name b hu hn hb := h.tmp dest name b hu hn (h'.tmp dest name b (h.used hu) hn hb)

/-- A file that is no cheque, and is not being written by a collector. -/
theorem less_addFile {f : Path} {name : Bytes} (hlast : f.getLast? = some name)
    (hname : ¬ isChequeName name) (htmp : ∀ dest n, n ∈ s.used → f ≠ tmpPath dest n) (b : Bytes) :
    Less s (Collector.addFile c s f name b) where
  used := List.subset_cons_self _ _
  cheque g d _ hg hget := by
    have hne : f ≠ g := by
      rintro rfl
      obtain ⟨n, hn, hc⟩ := hg
      exact hname (Option.some.inj (hlast.symm.trans hn) ▸ hc)
    rwa [Collector.addFile, Table.get_put_of_ne hne] at hget
  tmp dest n d hn _ hget := by
    rwa [Collector.addFile, Table.get_put_of_ne (htmp dest n hn)] at hget

theorem less_fresh {f : Path} {name : Bytes} (hlast : f.getLast? = some name)
    (hname : ¬ isChequeName name) (hfresh : name ∉ s.used) (b : Bytes) :
    Less s (Collector.addFile c s f name b) := by
  refine less_addFile hlast hname (fun dest n hn he => hfresh ?_) b
  rw [he, getLast?_tmpPath] at hlast
  exact Option.some.inj hlast ▸ hn

theorem Guarded.mono (hless : Less s t) (hsub : handed ⊆ handed') {f : Path} {raw : Option Bytes}
    (h : Guarded handed s f raw) : Guarded handed' t f raw :=
  ⟨h.1, fun hc b hb => (h.2 hc b (hless.cheque f b h.1 hc hb)).imp_right fun hm => hsub hm⟩

theorem Written.mono (hless : Less s t) {stage : Stage} (h : Written s stage) : Written t stage := by
  cases stage with
  | written f raw dest name =>
    obtain ⟨hused, hname, hraw⟩ := h
    exact ⟨hless.used hused, hname, fun b hb => hraw b (hless.tmp dest name b hused hname hb)⟩
  | _ => trivial

theorem collectors_mono (hs : CollectorInv handed s) (hless : Less s t)
    (hloops : t.loops = s.loops) (hsub : handed ⊆ handed') : CollectorInv handed' t where
  queue := hloops ▸ hs.queue
  taken w x hx := (hs.taken w x (hloops ▸ hx)).mono hless hsub
  written w := hloops ▸ (hs.written w).mono hless

/-- One collector goes on, with a change that leaves the other what it has. -/
theorem collectors_setLoop (hs : CollectorInv handed s) (hless : Less s t)
    (hloops : t.loops = s.loops) (hsub : handed ⊆ handed') {w : Which} {l : Loop}
    (hqueue : ∀ f ∈ l.queue, InNew f) (htaken : ∀ x ∈ taken l.stage, Guarded handed' t x.1 x.2)
    (hwritten : Written t l.stage) : CollectorInv handed' (t.setLoop w l) := by
  have ht := collectors_mono hs hless hloops hsub
  have hcases : ∀ w', (t.setLoop w l).loops w' = if w' = w then l else t.loops w' := fun w' => by
    simp only [Collector.State.setLoop, Function.update_apply]
  refine ⟨fun w' => ?_, fun w' => ?_, fun w' => ?_⟩
  · rw [hcases w']
    split_ifs
    · exact hqueue
    · exact ht.queue w'
  · rw [hcases w']
    split_ifs
    · exact htaken
    · exact ht.taken w'
  · rw [hcases w']
    split_ifs
    · exact hwritten
    · exact ht.written w'

theorem collectors_idle (hs : CollectorInv handed s) (hless : Less s t)
    (hloops : t.loops = s.loops) (hsub : handed ⊆ handed') {w : Which} {queue : List Path} {stage : Stage}
    (hqueue : ∀ f ∈ queue, InNew f) (hstage : stage = .next ∨ stage = .stopped) :
    CollectorInv handed' (t.setLoop w ⟨queue, stage⟩) := by
  rcases hstage with rfl | rfl <;>
    exact collectors_setLoop hs hless hloops hsub hqueue (fun x hx => by cases hx) trivial

theorem inNew_of_belongs {w : Which} {f : Path} (h : Collector.belongs c w f) : InNew f :=
  Collector.last_of_isSource (c := c) (by cases w <;> simp [Collector.isSource, h])

/-- A collector goes on with the file that it has taken. -/
theorem collectors_keep (hs : CollectorInv handed s) (hless : Less s t)
    (hloops : t.loops = s.loops) (hsub : handed ⊆ handed') {w : Which} {stage : Stage}
    (htaken : taken stage = taken (s.loops w).stage) (hwritten : Written t stage) :
    CollectorInv handed' (t.setStage w stage) :=
  collectors_setLoop hs hless hloops hsub (hloops ▸ hs.queue w)
    (fun x hx => (hs.taken w x (htaken ▸ hx)).mono hless hsub) hwritten

theorem collectors_next (hs : CollectorInv handed s) (hless : Less s t)
    (hloops : t.loops = s.loops) (hsub : handed ⊆ handed') (w : Which) :
    CollectorInv handed' (t.setStage w .next) :=
  collectors_idle hs hless hloops hsub (hloops ▸ hs.queue w) (Or.inl rfl)

theorem collectors_route (hs : CollectorInv handed s) {w : Which} {f : Path} {raw : Bytes}
    (hstage : (s.loops w).stage = .read f raw) (env : Collector.Env) (hsub : handed ⊆ handed') :
    CollectorInv handed' (Collector.route c s w env f raw) := by
  have hsame : ∀ lastDial, Less s { s with routed := f :: s.routed, lastDial := lastDial } :=
    fun _ => Less.of_files rfl rfl
  unfold Collector.route
  cases Collector.plan c s.routes env w f raw with
  | keep => exact collectors_next hs (Less.of_files rfl rfl) rfl hsub w
  | deliver dest =>
    dsimp only
    exact collectors_keep hs (hsame s.lastDial) rfl hsub (by rw [hstage]; rfl) trivial
  | dial host rcpt =>
    dsimp only
    split_ifs
    · exact collectors_next hs (hsame s.lastDial) rfl hsub w
    · exact collectors_keep hs (hsame _) rfl hsub (by rw [hstage]; rfl) trivial

theorem collectors_write (hs : CollectorInv handed s) {w : Which} {f dest : Path} {raw name : Bytes}
    (hstage : (s.loops w).stage = .deliver f raw dest) (hfresh : name ∉ s.used)
    (hname : ¬ isChequeName name) (how : Collector.Writing) (hsub : handed ⊆ handed') :
    CollectorInv handed' (Collector.write c s w name f raw dest how) := by
  have hless : ∀ b, Less s (Collector.addFile c s (tmpPath dest name) name b) :=
    less_fresh (getLast?_tmpPath dest name) hname hfresh
  unfold Collector.write
  cases how with
  | whole =>
    dsimp only
    refine collectors_keep hs (hless raw) rfl hsub (by rw [hstage]; rfl) ?_
    refine ⟨List.mem_cons_self, hname, fun b hb => ?_⟩
    rw [Collector.addFile, Table.get_put_self] at hb
    exact (Option.some.inj hb).symm
  | part n =>
    dsimp only
    exact collectors_next hs (hless _) rfl hsub w
  | failed => exact collectors_next hs (Less.of_files rfl rfl) rfl hsub w

/-- A collector has handed on the mail that it has read. -/
theorem collectors_handed (hs : CollectorInv handed s) (hless : Less s t)
    (hloops : t.loops = s.loops) (hsub : handed ⊆ handed') {w : Which} {f : Path} {raw : Bytes}
    (htaken : taken (s.loops w).stage = some (f, some raw)) (hraw : (f, raw) ∈ handed')
    (caught : Bool) : CollectorInv handed' (t.setStage w (.unlink f caught)) := by
  refine collectors_setLoop hs hless hloops hsub (hloops ▸ hs.queue w) (fun x hx => ?_) trivial
  obtain rfl := Option.some.inj hx
  obtain ⟨hnew, hfile⟩ := (hs.taken w (f, some raw) htaken).mono hless hsub
  refine ⟨hnew, fun hc b hb => Or.inr ?_⟩
  rcases hfile hc b hb with h | h
  · exact Option.some.inj h ▸ hraw
  · exact h

theorem collectors_rename (hs : CollectorInv handed s) {w : Which} {f dest : Path} {raw name : Bytes}
    (hstage : (s.loops w).stage = .written f raw dest name) :
    CollectorInv (handsOn s (.rename w true) ++ handed) (Collector.rename c s w f dest name) := by
  have hwritten := hs.written w
  rw [hstage] at hwritten
  obtain ⟨hused, hname, htmp⟩ := hwritten
  have hsub := List.subset_append_right (handsOn s (.rename w true)) handed
  unfold Collector.rename
  cases hget : Table.get s.files (tmpPath dest name) with
  | none => exact collectors_next hs (Less.of_files rfl rfl) rfl hsub w
  | some content =>
    obtain rfl := htmp content hget
    have hadd : Less { s with files := Table.del s.files (tmpPath dest name) } _ :=
      less_addFile (c := c) (getLast?_newPath dest name) hname
        (fun dest' n _ => newPath_ne_tmpPath dest dest' name n) content
    dsimp only
    have hplaced := ((less_del (tmpPath dest name)).trans hadd).trans
      (less_placed _ (⟨f, newPath dest name, content, dest⟩ :: s.placed))
    refine collectors_handed hs hplaced rfl hsub (by rw [hstage]; rfl) ?_ true
    refine List.mem_append_left _ ?_
    simp [handsOn, hstage, hget]

theorem collectors_read (hs : CollectorInv handed s) {w : Which} {f : Path} {queue : List Path}
    {raw : Bytes} (hqueue : (s.loops w).queue = f :: queue) (hget : Table.get s.files f = some raw)
    (hsub : handed ⊆ handed') : CollectorInv handed' (s.setLoop w ⟨queue, .read f raw⟩) := by
  have hnew : ∀ g ∈ f :: queue, InNew g := hqueue ▸ hs.queue w
  refine collectors_setLoop hs (Less.of_files rfl rfl) rfl hsub
    (fun g hg => hnew g (List.mem_cons_of_mem f hg)) (fun x hx => ?_) trivial
  obtain rfl := Option.some.inj hx
  exact ⟨hnew f List.mem_cons_self, fun _ b hb => Or.inl (hget.symm.trans hb)⟩

theorem collectors_unlink (hs : CollectorInv handed s) (w : Which) (f : Path) (caught ok : Bool)
    (hsub : handed ⊆ handed') : CollectorInv handed' (Collector.unlink s w f caught ok) := by
  have hsame : Less s s := Less.of_files rfl rfl
  unfold Collector.unlink
  split_ifs
  · exact collectors_next hs (less_del f) rfl hsub w
  · exact collectors_next hs hsame rfl hsub w
  · exact collectors_idle hs hsame rfl hsub (fun _ hf => absurd hf List.not_mem_nil) (Or.inr rfl)

theorem collectors_step (hs : CollectorInv handed s) {e : Collector.Event}
    (hname : ¬ (namedBy e).any isChequeName) (h : Collector.step c s e = some t) :
    CollectorInv (handsOn s e ++ handed) t := by
  have hsub := List.subset_append_right (handsOn s e) handed
  have hsame : Less s s := Less.of_files rfl rfl
  cases Collector.step_spec h with
  | put hfresh => exact collectors_mono hs (less_fresh (by simp) hname hfresh _) rfl hsub
  | setRoutes routes => exact collectors_mono hs (Less.of_files rfl rfl) rfl hsub
  | @remove path _ => exact collectors_mono hs (less_del path) rfl hsub
  | list hlisting =>
    exact collectors_idle hs hsame rfl hsub (fun f hf => inNew_of_belongs (hlisting f hf))
      (Or.inl rfl)
  | read hqueue hget => exact collectors_read hs hqueue hget hsub
  | @skip w f queue hqueue =>
    refine collectors_idle hs hsame rfl hsub (fun g hg => hs.queue w g ?_) (Or.inl rfl)
    rw [hqueue]
    exact List.mem_cons_of_mem f hg
  | route hstage env => exact collectors_route hs hstage env hsub
  | write hstage hfresh how => exact collectors_write hs hstage hfresh hname how hsub
  | rename hstage => exact collectors_rename hs hstage
  | @dialed w f raw host rcpt hstage =>
    refine collectors_handed hs (less_accepted s (f :: s.accepted)) rfl hsub
      (by rw [hstage]; rfl) ?_ false
    simp [handsOn, hstage]
  | @giveUp _ w _ => exact collectors_next hs hsame rfl hsub w
  | @unlink w f caught _ ok => exact collectors_unlink hs w f caught ok hsub
  | fail w =>
    exact collectors_idle hs hsame rfl hsub (fun _ hf => absurd hf List.not_mem_nil) (Or.inr rfl)
  | crash =>
    exact ⟨fun _ _ hf => absurd hf List.not_mem_nil, fun _ _ hx => (by cases hx), fun _ => trivial⟩

/-- A collector removes a cheque only when it was handed on. -/
theorem cheque_step (hs : CollectorInv handed s) {e : Collector.Event}
    (hname : ¬ (namedBy e).any isChequeName) (h : Collector.step c s e = some t) {f : Path} {b : Bytes}
    (hnew : InNew f) (hf : IsCheque f) (hb : Table.get s.files f = some b) :
    Table.get t.files f = some b ∨ (f, b) ∈ handed := by
  obtain ⟨last, hlast, hcheque⟩ := hf
  -- files of other names come and go
  have hput : ∀ {g : Path} {name : Bytes} (files : List (Path × Bytes)) (d : Bytes),
      g.getLast? = some name → ¬ isChequeName name →
        Table.get (Table.put files g d) f = Table.get files f := by
    intro g name files d hg hn
    refine Table.get_put_of_ne ?_ _ _
    rintro rfl
    exact hn (Option.some.inj (hg.symm.trans hlast) ▸ hcheque)
  have hdel : ∀ {g : Path} (files : List (Path × Bytes)), g ≠ f →
      Table.get (Table.del files g) f = Table.get files f := fun files hg =>
    Table.get_del_of_ne hg files
  cases Collector.step_spec h with
  | @put _ _ raw _ => exact Or.inl ((hput s.files raw (by simp) hname).trans hb)
  | remove _ =>
    refine Or.inl ((hdel s.files ?_).trans hb)
    rintro rfl
    exact hname (by simp [namedBy, hlast, hcheque])
  | route _ env =>
    refine Or.inl ?_
    unfold Collector.route
    split
    · exact hb
    · exact hb
    · split_ifs <;> exact hb
  | @write _ _ _ dest name _ _ how =>
    cases how with
    | failed => exact Or.inl hb
    | _ => exact Or.inl ((hput s.files _ (getLast?_tmpPath dest name) hname).trans hb)
  | @rename w _ _ dest name hstage =>
    have hwritten := hs.written w
    rw [hstage] at hwritten
    refine Or.inl ?_
    unfold Collector.rename
    split
    next content _ =>
      have htmp : tmpPath dest name ≠ f := fun he => not_inNew_tmpPath dest name (he ▸ hnew)
      exact (hput _ content (getLast?_newPath dest name) hwritten.2.1).trans
        ((hdel s.files htmp).trans hb)
    · exact hb
  | @unlink w g caught hstage ok =>
    by_cases hg : g = f
    · subst hg
      have hguarded := (hs.taken w (g, none) (by rw [hstage]; rfl)).2 ⟨last, hlast, hcheque⟩ b hb
      exact Or.inr (hguarded.resolve_left fun he => (by cases he))
    · refine Or.inl ?_
      unfold Collector.unlink
      split_ifs
      · exact (hdel s.files hg).trans hb
      · exact hb
      · exact hb
  | _ => exact Or.inl hb

/-! ## The deposits -/

/-- What holds of instances and collectors: a file that is being written is still in `tmp`. -/
structure Inv (base : Path) (s : System) : Prop where
  collectors : CollectorInv s.handed s.collector
  safe : s.Survives
  named : ∀ x ∈ s.deposited, InNew x.1 ∧ IsCheque x.1
  fds : ∀ x ∈ s.deposits, x.2.Writing → ∀ p, x.2.fd = some p → p = x.2.tmp base

variable {base : Path} {σ τ : System}

theorem inv_start (routes : List (Address × Path)) : Inv base (start routes) where
  collectors := ⟨fun _ _ hf => absurd hf List.not_mem_nil, fun _ _ hx => (by cases hx),
    fun _ => trivial⟩
  safe _ hx := absurd hx List.not_mem_nil
  named _ hx := absurd hx List.not_mem_nil
  fds _ hx := absurd hx List.not_mem_nil

/-- A cheque that is written in `tmp` is in nobody's way. -/
theorem less_tmp (s : Collector.State) (dir : Path) (txid b : Bytes) :
    Less s (setFiles s (Table.put s.files (tmpPath dir (chequeName txid)) b)) where
  used _ h := h
  cheque f d hnew _ hget := by
    have hne : tmpPath dir (chequeName txid) ≠ f := fun he => not_inNew_tmpPath _ _ (he ▸ hnew)
    rwa [setFiles, Table.get_put_of_ne hne] at hget
  tmp dest name d _ hname hget := by
    have hne : tmpPath dir (chequeName txid) ≠ tmpPath dest name := by
      intro he
      have hlast := getLast?_tmpPath dir (chequeName txid)
      rw [he, getLast?_tmpPath] at hlast
      exact hname (Option.some.inj hlast ▸ isChequeName_chequeName txid)
    rwa [setFiles, Table.get_put_of_ne hne] at hget

theorem survives_tmp (hi : Inv base σ) (dir : Path) (txid b : Bytes) :
    ∀ x ∈ σ.deposited, Table.get (Table.put σ.collector.files (tmpPath dir (chequeName txid)) b) x.1 =
      some x.2 ∨ x ∈ σ.handed := by
  intro x hx
  have hne : tmpPath dir (chequeName txid) ≠ x.1 := fun he =>
    not_inNew_tmpPath _ _ (he ▸ (hi.named x hx).1)
  rw [Table.get_put_of_ne hne]
  exact hi.safe x hx

theorem inv_opens {c : Setup} (hi : Inv base σ) {i : ℕ} {domain txid bytes : Bytes}
    (h : step c base σ (.opens i domain txid bytes) = some τ) : Inv base τ := by
  simp only [step] at h
  split_ifs at h
  obtain rfl := Option.some.inj h
  refine ⟨?_, survives_tmp hi _ _ _, hi.named, fun x hx hw p hp => ?_⟩
  · exact collectors_mono hi.collectors (less_tmp σ.collector _ _ _) rfl fun _ h => h
  · rcases Table.mem_of_mem_put hx with rfl | hx
    · exact (Option.some.inj hp).symm
    · exact hi.fds x hx hw p hp

theorem inv_writes {c : Setup} (hi : Inv base σ) {i n : ℕ}
    (h : step c base σ (.writes i n) = some τ) : Inv base τ := by
  simp only [step] at h
  cases hd : Table.get σ.deposits i with
  | none => simp [hd] at h
  | some d =>
    rw [hd] at h
    dsimp only at h
    split_ifs at h with hn
    obtain ⟨hpos, hlen⟩ := not_or.1 hn
    obtain rfl := Option.some.inj h
    have hwriting : d.Writing := by
      show d.written < d.bytes.length
      omega
    have hown := hi.fds (i, d) (Table.mem_of_get hd) hwriting
    have hfds : ∀ x ∈ Table.put σ.deposits i { d with written := d.written + n }, x.2.Writing →
        ∀ p, x.2.fd = some p → p = x.2.tmp base := by
      intro x hx hw p hp
      rcases Table.mem_of_mem_put hx with rfl | hx
      · exact hown p hp
      · exact hi.fds x hx hw p hp
    unfold writeChunk
    dsimp only
    split
    · exact ⟨hi.collectors, hi.safe, hi.named, hfds⟩
    next p hp =>
      obtain rfl := hown p hp
      refine ⟨?_, survives_tmp hi _ _ _, hi.named, hfds⟩
      exact collectors_mono hi.collectors (less_tmp σ.collector _ _ _) rfl fun _ h => h

/-- The files that are not the deposit's own stay. -/
theorem get_moved {src dst f : Path} (hsrc : src ≠ f) (hdst : dst ≠ f) (files : List (Path × Bytes))
    (content : Bytes) :
    Table.get (Table.put (Table.del files src) dst content) f = Table.get files f := by
  rw [Table.get_put_of_ne hdst, Table.get_del_of_ne hsrc]

theorem inv_renames {c : Setup} (hi : Inv base σ) {i : ℕ} (hC : Apart base σ (.renames i))
    (h : step c base σ (.renames i) = some τ) : Inv base τ := by
  simp only [step] at h
  cases hd : Table.get σ.deposits i with
  | none => simp [hd] at h
  | some d =>
    rw [hd] at h
    dsimp only at h
    split_ifs at h
    obtain rfl := Option.some.inj h
    unfold rename
    cases hget : Table.get σ.collector.files (d.tmp base) with
    | none => exact ⟨hi.collectors, hi.safe, hi.named, fun x hx => hi.fds x (Table.mem_of_mem_del hx).1⟩
    | some content =>
      have halone := hC d hd
      rw [Alone, hget] at halone
      obtain ⟨rfl, hopen, hdst, htaken⟩ := halone
      have htmp : ∀ {f : Path}, InNew f → d.tmp base ≠ f := fun hf he =>
        not_inNew_tmpPath _ _ (he ▸ hf)
      refine ⟨⟨hi.collectors.queue, fun w x hx => ?_, fun w => ?_⟩, fun x hx => ?_, fun x hx => ?_,
        fun x hx hw p hp => ?_⟩
      · -- what the collectors have taken
        obtain ⟨hnew, hfile⟩ := hi.collectors.taken w x hx
        refine ⟨hnew, fun hc b hb => ?_⟩
        by_cases hf : d.dst base = x.1
        · rw [← hf] at hb ⊢
          obtain rfl := Option.some.inj ((Table.get_put_self _ _ _).symm.trans hb)
          exact htaken w x hx hf.symm
        · exact hfile hc b ((get_moved (htmp hnew) hf _ _).symm.trans hb)
      · -- what they are writing
        have hwritten := hi.collectors.written w
        show Written _ (σ.collector.loops w).stage
        cases hstage : (σ.collector.loops w).stage with
        | written f raw dest name =>
          rw [hstage] at hwritten
          obtain ⟨hused, hname, hraw⟩ := hwritten
          refine ⟨hused, hname, fun b hb => hraw b ((get_moved ?_ ?_ _ _).symm.trans hb)⟩
          · intro he
            have hlast := getLast?_tmpPath (base ++ [d.domain]) (chequeName d.txid)
            rw [show tmpPath (base ++ [d.domain]) (chequeName d.txid) = tmpPath dest name from he,
              getLast?_tmpPath] at hlast
            exact hname (Option.some.inj hlast ▸ isChequeName_chequeName d.txid)
          · exact newPath_ne_tmpPath _ _ _ _
        | _ => trivial
      · -- what was deposited
        rcases List.mem_cons.1 hx with rfl | hx
        · exact Or.inl (Table.get_put_self _ _ _)
        · by_cases hf : d.dst base = x.1
          · rcases hi.safe x hx with hs | hs
            · rw [← hf] at hs
              rcases hdst x.2 hs with hb | hb
              · exact Or.inl (hf ▸ hb ▸ Table.get_put_self _ _ _)
              · exact Or.inr (by rwa [hf] at hb)
            · exact Or.inr hs
          · exact (hi.safe x hx).imp_left fun hs =>
              (get_moved (htmp (hi.named x hx).1) hf _ _).trans hs
      · rcases List.mem_cons.1 hx with rfl | hx
        · exact ⟨inNew_newPath _ _, isCheque_dst base d⟩
        · exact hi.named x hx
      · -- which files are open
        obtain ⟨y, hy, rfl⟩ := List.mem_map.1 hx
        obtain ⟨hy, hyi⟩ := Table.mem_of_mem_del hy
        have hne := hopen y hy hyi hw
        simp only [moved, if_neg hne] at hp
        split_ifs at hp
        exact hi.fds y hy hw p hp

theorem inv_collector {c : Setup} (hi : Inv base σ) {e : Collector.Event}
    (h : step c base σ (.collector e) = some τ) : Inv base τ := by
  simp only [step] at h
  split_ifs at h with hname
  obtain ⟨t, ht, rfl⟩ := Option.map_eq_some_iff.1 h
  refine ⟨collectors_step hi.collectors hname ht, fun x hx => ?_, hi.named, fun x hx hw p hp => ?_⟩
  · rcases hi.safe x hx with hs | hs
    · obtain ⟨hnew, hc⟩ := hi.named x hx
      exact (cheque_step hi.collectors hname ht hnew hc hs).imp_right
        fun hm => List.mem_append_right _ hm
    · exact Or.inr (List.mem_append_right _ hs)
  · obtain ⟨y, hy, rfl⟩ := List.mem_map.1 hx
    exact hi.fds y hy hw p (Option.filter_eq_some_iff.1 hp).1

theorem inv_step {c : Setup} (s : System) (e : Event) (t : System) (hi : Inv base s)
    (hC : Apart base s e) (h : step c base s e = some t) : Inv base t := by
  cases e with
  | opens i domain txid bytes => exact inv_opens hi h
  | writes i n => exact inv_writes hi h
  | renames i => exact inv_renames hi hC h
  | fails i =>
    obtain rfl := Option.some.inj h
    exact ⟨hi.collectors, hi.safe, hi.named, fun x hx => hi.fds x (Table.mem_of_mem_del hx).1⟩
  | collector e => exact inv_collector hi h

/-- In every run in which the cheques are apart, every cheque that was deposited lies in `new` with
its own bytes or was handed on. -/
theorem deposits_survive {c : Setup} {routes : List (Address × Path)} {es : List Event}
    (hC : Along (step c base) (Apart base) (start routes) es)
    (h : run (step c base) (start routes) es = some τ) : τ.Survives :=
  (run_invariant inv_step (inv_start routes) hC h).safe

/-! ## Two validators -/

theorem forall_which_iff {p : Which → Prop} : (p .outboxes ∧ p .pickup) ↔ ∀ w, p w :=
  ⟨fun h w => by cases w; exacts [h.1, h.2], fun h => ⟨h .outboxes, h .pickup⟩⟩

instance (s : System) (dst : Path) (bytes : Bytes) : Decidable (Untaken s dst bytes) :=
  letI (o : Option (Path × Option Bytes)) : Decidable (∀ x ∈ o, x.1 = dst →
      x.2 = some bytes ∨ (dst, bytes) ∈ s.handed) := inferInstance
  decidable_of_iff _ forall_which_iff

instance (base : Path) (s : System) (i : ℕ) (d : Deposit) : Decidable (Alone base s i d) := by
  unfold Alone
  split <;> infer_instance

instance (base : Path) (s : System) (e : Event) : Decidable (Apart base s e) := by
  unfold Apart
  split <;> infer_instance

instance (s : System) : Decidable s.Survives := by
  unfold System.Survives
  infer_instance

def sampleSetup : Setup := ⟨asciiStr, [ascii "axiom"], [], some [ascii "base"]⟩

/-- A deposit of a cheque for the transaction 7 at the host `h`. -/
def sampleDeposit (i : ℕ) (bytes : Bytes) : List Event :=
  [.opens i (ascii "h") [7] bytes, .writes i bytes.length, .renames i]

/-- The collector takes the cheque and hands it to the site. -/
def sampleCollection : List Event :=
  [.list .pickup [[ascii "base", ascii "h", ascii "new", chequeName [7]]], .read .pickup,
    .route .pickup ⟨2000000, 2000000, [], []⟩, .dialed .pickup true, .unlink .pickup true].map .collector

/-- The second validator deposits its cheque after the first has been handed on. -/
theorem deposits_survive_handed :
    ∃ t, run (step sampleSetup [ascii "base"]) (start [])
      (sampleDeposit 1 (ascii "one") ++ sampleCollection ++ sampleDeposit 2 (ascii "two")) = some t ∧
      t.Survives := by
  have hr : (run (step sampleSetup [ascii "base"]) (start [])
      (sampleDeposit 1 (ascii "one") ++ sampleCollection ++ sampleDeposit 2 (ascii "two"))).isSome := by
    decide +kernel
  obtain ⟨t, ht⟩ := Option.isSome_iff_exists.1 hr
  exact ⟨t, ht, deposits_survive (by decide +kernel) ht⟩

/-- The second validator deposits its cheque while that of the first waits to be collected. -/
theorem deposit_overwritten :
    ∃ t, run (step sampleSetup [ascii "base"]) (start [])
      (sampleDeposit 1 (ascii "one") ++ sampleDeposit 2 (ascii "two")) = some t ∧ ¬ t.Survives := by
  have hr : (run (step sampleSetup [ascii "base"]) (start [])
      (sampleDeposit 1 (ascii "one") ++ sampleDeposit 2 (ascii "two"))).map
      (fun t => decide t.Survives) = some false := by decide +kernel
  obtain ⟨t, ht, hlost⟩ := Option.map_eq_some_iff.1 hr
  exact ⟨t, ht, of_decide_eq_false hlost⟩

end Seam.Deposits
