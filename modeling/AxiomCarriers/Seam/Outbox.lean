import AxiomCarriers.Antie.RoutedOutbox
import AxiomCarriers.Fatmama.Collector

/-!
# From ANTIE's outbox to the mailboxes of FATMAMA

An outbox lies between two programs: `RoutedCarrier::send` renames a file into its `new/`, and
`_collect_outboxes` takes the file from there.  The system here is both of them, with any number of
sends and the two collectors, step by step in any order.

`sent_mail_kept` says what an answer of `send` is worth: the mail of a send that returned without an
error is in the outbox until it is delivered, and that of one that returned an error never was
there.
-/

namespace Seam.Outbox

open Antie Bytes Fatmama RoutedOutbox Runs
open Collector (Setup newPath isSource)

/-- The carrier, the collectors, and where the directory of an outbox lies. -/
structure Site where
  carrier : RoutedCarrier
  setup : Setup
  dir : Bytes → Path

structure System where
  /-- In its `new` is whatever has come into an outbox. -/
  antie : RoutedOutbox.State
  fatmama : Collector.State

inductive Event
  | antie (e : RoutedOutbox.Event)
  | fatmama (e : Collector.Event)

/-- Where a file of an outbox lies once it is there. -/
def Site.path (c : Site) (f : File) : Path := newPath (c.dir f.1) f.2

/-- The file that the next step of a send puts into its outbox. -/
def arrives (s : RoutedOutbox.State) : RoutedOutbox.Event → Option (File × Bytes)
  | .rename i => do
    let j ← s.jobs[i]?
    let content ← Table.get s.tmp j.file
    return (j.file, content)
  | _ => none

def step (c : Site) (s : System) : Event → Option System
  | .antie (.take _) => none
  | .antie e => do
    let antie ← RoutedOutbox.step c.carrier s.antie e
    match arrives s.antie e with
    | some (f, content) =>
      return ⟨antie, Collector.addFile c.setup s.fatmama (c.path f) f.2 content⟩
    | none => return ⟨antie, s.fatmama⟩
  | .fatmama e => (Collector.step c.setup s.fatmama e).map fun t => { s with fatmama := t }

/-- Both start; nothing has come into an outbox. -/
def start (routes : List (Address × Path)) : System := ⟨started [], Collector.start routes⟩

/-- The name that a step of the collectors gives out. -/
def given : Collector.Event → Option Bytes
  | .put _ name _ | .write _ name _ => some name
  | _ => none

/-- The name that a send generates. -/
def named : RoutedOutbox.Event → Option Bytes
  | .send _ _ stamp => some (fileName stamp)
  | _ => none

/-- A file name that one of the programs generates is new to both. -/
def Fresh (s : System) : Event → Prop
  | .antie e => RoutedOutbox.Fresh s.antie e ∧ ∀ name ∈ named e, name ∉ s.fatmama.used
  | .fatmama e => ∀ name ∈ given e, name ∉ s.antie.jobs.map (·.file.2)

instance (s : System) : ∀ e, Decidable (Fresh s e)
  | .antie e => inferInstanceAs
      (Decidable (RoutedOutbox.Fresh s.antie e ∧ ∀ name ∈ named e, name ∉ s.fatmama.used))
  | .fatmama e => inferInstanceAs
      (Decidable (∀ name ∈ given e, name ∉ s.antie.jobs.map (·.file.2)))

/-! ## Steps of the collectors -/

variable {c : Site} {s t : System}

/-- The names that a step of the collectors gives out are the only new ones, and what has arrived
stays. -/
theorem collector_step {c : Setup} {s t : Collector.State} {e : Collector.Event}
    (hs : Collector.Inv c s) (h : Collector.step c s e = some t) :
    s.arrived ⊆ t.arrived ∧ ∀ name ∈ t.used, name ∈ s.used ∨ name ∈ given e := by
  have hadd : ∀ (u : Collector.State) (f : Path) (name b : Bytes),
      u.arrived ⊆ (Collector.addFile c u f name b).arrived := fun u f name b => by
    unfold Collector.addFile
    split_ifs
    · exact List.subset_cons_self _ _
    · exact fun _ hx => hx
  have hold : s.arrived ⊆ s.arrived ∧ ∀ name ∈ s.used, name ∈ s.used ∨ name ∈ given e :=
    ⟨fun _ hx => hx, fun _ hn => Or.inl hn⟩
  have hnew : ∀ name ∈ given e, ∀ n ∈ name :: s.used, n ∈ s.used ∨ n ∈ given e := by
    intro name hname n hn
    rcases List.mem_cons.1 hn with rfl | hn
    · exact Or.inr hname
    · exact Or.inl hn
  cases Collector.step_spec h with
  | @put dir name raw hfresh => exact ⟨hadd _ _ _ _, hnew name rfl⟩
  | @write w f raw dest name hstage hfresh how =>
    cases how with
    | whole => exact ⟨hadd s (Collector.tmpPath dest name) name raw, hnew name rfl⟩
    | part n => exact ⟨hadd s (Collector.tmpPath dest name) name (raw.take n), hnew name rfl⟩
    | failed => exact hold
  | @rename w f raw dest name hstage =>
    -- The name was given out when the file was written.
    have hused : name ∈ s.used := Collector.used_of_name hs (by rw [hstage]; rfl)
    unfold Collector.rename
    split
    · rename_i content hcontent
      refine ⟨hadd { s with files := Table.del s.files (Collector.tmpPath dest name) }
        (newPath dest name) name content, fun n hn => Or.inl ?_⟩
      rcases List.mem_cons.1 hn with rfl | hn
      · exact hused
      · exact hn
    · exact hold
  | @route w f raw hstage env =>
    unfold Collector.route
    split
    · exact hold
    · exact hold
    · split_ifs <;> exact hold
  | @unlink w f caught hstage ok =>
    unfold Collector.unlink
    split_ifs <;> exact hold
  | _ => exact hold

/-! ## The invariant -/

/-- The sends that have moved their file have brought it to FATMAMA, and the names of the others are
still unused there. -/
structure Inv (c : Site) (s : System) : Prop where
  antie : RoutedOutbox.Inv c.carrier [] s.antie
  fatmama : Collector.Inv c.setup s.fatmama
  apart : ∀ j ∈ s.antie.jobs, j.placed = false → j.file.2 ∉ s.fatmama.used
  arrived : ∀ j ∈ s.antie.jobs, j.placed = true → isSource c.setup (c.path j.file) →
    (c.path j.file, j.raw) ∈ s.fatmama.arrived

theorem inv_start (c : Site) (routes : List (Address × Path)) : Inv c (start routes) where
  antie := RoutedOutbox.inv_started List.nodup_nil
  fatmama := Collector.inv_start c.setup routes
  apart := fun _ hj => absurd hj List.not_mem_nil
  arrived := fun _ hj => absurd hj List.not_mem_nil

theorem path_eq (c : Site) (f : File) : c.path f = c.dir f.1 ++ [ascii "new"] ++ [f.2] := by
  rw [Site.path, newPath, List.append_assoc]
  rfl

/-- A step of a send, and the file that it brings. -/
theorem inv_antie (h : Inv c s) {e : RoutedOutbox.Event} (hfresh : Fresh s (.antie e))
    {a : RoutedOutbox.State} (hstep : RoutedOutbox.step c.carrier s.antie e = some a) :
    match arrives s.antie e with
    | some (f, b) => Inv c ⟨a, Collector.addFile c.setup s.fatmama (c.path f) f.2 b⟩
    | none => Inv c ⟨a, s.fatmama⟩ := by
  have ha := RoutedOutbox.step_inv h.antie hfresh.1 hstep
  cases RoutedOutbox.step_spec hstep with
  | refuse hrefused => exact ⟨ha, h.fatmama, h.apart, h.arrived⟩
  | take hget => exact ⟨ha, h.fatmama, h.apart, h.arrived⟩
  | send hdir =>
    refine ⟨ha, h.fatmama, fun j hj => ?_, fun j hj => ?_⟩
    · rcases List.mem_append.1 hj with hj | hj
      · exact h.apart j hj
      · obtain rfl := List.mem_singleton.1 hj
        exact fun _ => hfresh.2 _ rfl
    · rcases List.mem_append.1 hj with hj | hj
      · exact h.arrived j hj
      · obtain rfl := List.mem_singleton.1 hj
        exact fun hp => Bool.noConfusion hp
  | @goOn e i j tmp stage he hi htmp hstage =>
    have hnone : arrives s.antie e = none := by
      cases e with
      | rename i => exact absurd rfl (he i)
      | _ => rfl
    rw [hnone]
    have hmem := List.mem_of_getElem? hi
    refine ⟨ha, h.fatmama, fun x hx => ?_, fun x hx => ?_⟩
    · rcases mem_set (s := s.antie) hx with rfl | ⟨k, -, hk⟩
      · exact h.apart j hmem
      · exact h.apart x (List.mem_of_getElem? hk)
    · rcases mem_set (s := s.antie) hx with rfl | ⟨k, -, hk⟩
      · exact h.arrived j hmem
      · exact h.arrived x (List.mem_of_getElem? hk)
  | @rename i j m hi hstage hm =>
    obtain ⟨hplaced, hget⟩ := whole_of_write h.antie hi hstage hm
    have hfile : j.file.2 ∉ s.fatmama.used := h.apart j (List.mem_of_getElem? hi) hplaced
    have harrives : arrives s.antie (.rename i) = some (j.file, j.raw) := by
      simp only [arrives, hi, hget, Option.bind_eq_bind, Option.bind_some]
      rfl
    rw [harrives]
    rw [RoutedOutbox.rename, hget] at ha ⊢
    refine ⟨ha, ?_, fun x hx hxp => ?_, fun x hx hxp hsource => ?_⟩
    · rw [path_eq]
      exact Collector.inv_put h.fatmama hfile j.raw
    · rcases mem_set (s := s.antie) hx with rfl | ⟨k, hk, hx⟩
      · exact Bool.noConfusion hxp
      · exact List.not_mem_cons_of_ne_of_not_mem (h.antie.ne_name hi hx hk)
          (h.apart x (List.mem_of_getElem? hx) hxp)
    · simp only [Collector.addFile]
      rcases mem_set (s := s.antie) hx with rfl | ⟨k, -, hx⟩
      · rw [if_pos hsource]
        exact List.mem_cons_self
      · have hxs := h.arrived x (List.mem_of_getElem? hx) hxp hsource
        split_ifs
        · exact List.mem_cons_of_mem _ hxs
        · exact hxs

theorem inv_step {e : Event} (h : Inv c s) (hfresh : Fresh s e) (hstep : step c s e = some t) :
    Inv c t := by
  cases e with
  | fatmama e =>
    obtain ⟨u, hu, rfl⟩ := Option.map_eq_some_iff.1 hstep
    obtain ⟨harrived, hused⟩ := collector_step h.fatmama hu
    refine ⟨h.antie, Collector.inv_step _ _ _ h.fatmama hu, fun j hj hp hmem => ?_,
      fun j hj hp hsource => harrived (h.arrived j hj hp hsource)⟩
    rcases hused _ hmem with hmem | hmem
    · exact h.apart j hj hp hmem
    · exact hfresh _ hmem (List.mem_map_of_mem hj)
  | antie e =>
    have hdo : ∃ a, RoutedOutbox.step c.carrier s.antie e = some a ∧ (match arrives s.antie e with
        | some (f, b) => some ⟨a, Collector.addFile c.setup s.fatmama (c.path f) f.2 b⟩
        | none => some ⟨a, s.fatmama⟩) = some t := by
      cases e with
      | take f => cases hstep
      | _ => exact Option.bind_eq_some_iff.1 hstep
    obtain ⟨a, ha, ht⟩ := hdo
    have hinv := inv_antie h hfresh ha
    split at ht
    · rename_i f b hf
      rw [hf] at hinv
      obtain rfl := Option.some.inj ht
      exact hinv
    · rename_i hf
      rw [hf] at hinv
      obtain rfl := Option.some.inj ht
      exact hinv

/-! ## What an answer is worth -/

/-- The file lies where FATMAMA collects. -/
theorem isSource_path {f : File} (h : c.dir f.1 ∈ c.setup.outboxes) :
    isSource c.setup (c.path f) := by
  have hbelongs : Collector.belongs c.setup .outboxes (c.path f) := by
    rw [Collector.belongs, List.any_eq_true]
    refine ⟨c.dir f.1, h, decide_eq_true ?_⟩
    rw [path_eq, List.dropLast_concat]
  rw [isSource, hbelongs]
  rfl

/-- The mail of a send into an outbox of FATMAMA.  What comes there is the whole of it.  When the
send has returned without an error, it lies there until it is put into its mailbox or accepted by
another site; when it has returned an error, it never comes. -/
theorem sent_mail_kept {routes : List (Address × Path)} {es : List Event}
    (hfresh : Along (step c) Fresh (start routes) es)
    (hrun : run (step c) (start routes) es = some t) :
    ∀ j ∈ t.antie.jobs, c.dir j.file.1 ∈ c.setup.outboxes →
      (∀ x ∈ t.fatmama.arrived, x.1 = c.path j.file → x.2 = j.raw) ∧
      (j.stage = .ended (some (.ok ())) →
        Table.get t.fatmama.files (c.path j.file) = some j.raw ∨
          Collector.Delivered c.setup t.fatmama (c.path j.file) j.raw) ∧
      ∀ e, j.stage = .ended (some (.error e)) → ∀ x ∈ t.fatmama.arrived, x.1 ≠ c.path j.file := by
  intro j hj houtbox
  have h : Inv c t := run_invariant (fun _ _ _ h hfresh hstep => inv_step h hfresh hstep)
    (inv_start c routes) hfresh hrun
  have hsource := isSource_path houtbox
  have hstage := (h.antie.jobs j hj).stage
  have habsent : j.placed = false → ∀ x ∈ t.fatmama.arrived, x.1 ≠ c.path j.file := by
    intro hplaced x hx hpath
    obtain ⟨name, hname, hlast⟩ := h.fatmama.named x hx
    rw [hpath, path_eq, List.getLast?_concat] at hlast
    obtain rfl := Option.some.inj hlast
    exact h.apart j hj hplaced hname
  refine ⟨fun x hx hpath => ?_, fun hok => ?_, fun e herror => ?_⟩
  · cases hplaced : j.placed with
    | false => exact absurd hpath (habsent hplaced x hx)
    | true =>
      rw [h.fatmama.unique x hx _ (h.arrived j hj hplaced hsource) hpath]
  · rw [hok] at hstage
    exact (h.fatmama.safe _ (h.arrived j hj hstage hsource)).imp_right And.right
  · rw [herror] at hstage
    exact habsent hstage

def sampleSite : Site where
  carrier := sampleCarrier
  setup := ⟨asciiStr, [ascii "axiom.internal"], [[ascii "fatmama"]], none⟩
  dir b := [b]

def sampleMail : Bytes := ascii "To: b@axiom.internal\r\n\r\nhi\r\n"

/-- A mail is sent while FATMAMA lists the outbox for the first time, and delivered in the second
pass; another send fails. -/
def sampleEvents : List Event :=
  let file := [ascii "fatmama", ascii "new", fileName ⟨7, 1, ascii "u"⟩]
  [.antie (.send (ascii "b@axiom.internal") sampleMail ⟨7, 1, ascii "u"⟩),
    .antie (.send (ascii "b@axiom.internal") sampleMail ⟨7, 1, ascii "v"⟩), .antie (.create 0),
    .antie (.create 1), .antie (.write 0 40), .fatmama (.list .outboxes []), .antie (.rename 0),
    .antie (.fail 1), .antie (.back 0), .fatmama (.list .outboxes [file]),
    .fatmama (.read .outboxes), .fatmama (.route .outboxes ⟨0, 0, [], []⟩),
    .fatmama (.write .outboxes (ascii "1") .whole), .fatmama (.rename .outboxes true),
    .fatmama (.unlink .outboxes true)]

theorem sent_mail_kept_two : ∃ t,
    run (step sampleSite) (start [(ascii "b@axiom.internal", [ascii "mail"])]) sampleEvents =
      some t ∧
    Table.get t.fatmama.files (sampleSite.path (ascii "fatmama", fileName ⟨7, 1, ascii "u"⟩)) =
      none ∧
    Collector.Delivered sampleSite.setup t.fatmama
      (sampleSite.path (ascii "fatmama", fileName ⟨7, 1, ascii "u"⟩)) sampleMail := by
  have hfresh : Along (step sampleSite) Fresh
      (start [(ascii "b@axiom.internal", [ascii "mail"])]) sampleEvents := by decide +kernel
  have hr : (run (step sampleSite) (start [(ascii "b@axiom.internal", [ascii "mail"])])
      sampleEvents).map (fun t => (t.antie.jobs[0]?, Table.get t.fatmama.files
        (sampleSite.path (ascii "fatmama", fileName ⟨7, 1, ascii "u"⟩)))) =
      some (some ⟨ascii "b@axiom.internal", sampleMail,
        (ascii "fatmama", fileName ⟨7, 1, ascii "u"⟩), .ended (some (.ok ())), true⟩, none) := by
    decide +kernel
  obtain ⟨t, ht, hx⟩ := Option.map_eq_some_iff.1 hr
  obtain ⟨hjob, hgone⟩ := Prod.mk.inj hx
  have hkept := sent_mail_kept hfresh ht _ (List.mem_of_getElem? hjob) (by decide)
  exact ⟨t, ht, hgone, (hkept.2.1 rfl).resolve_left fun h => by simp [hgone] at h⟩

end Seam.Outbox
