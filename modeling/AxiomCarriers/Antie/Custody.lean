import AxiomCarriers.Lib.Bytes
import AxiomCarriers.Lib.Table

/-!
# Custody deposits

`custody::deposit` writes a reply into the directory of a session: it creates the directory and its
`tmp/`, writes the file in `tmp/`, and renames it into place.  A deposit is a job that takes one of
these steps at a time (`Job.advance`), so that other processes can act in between.
-/

namespace Antie.Custody

open Bytes

abbrev Name := Bytes

/-- The name that `deposit` refuses: empty, or with a slash, a backslash or two dots. -/
def unsafeName (name : Name) : Bool := name = [] || 47 ∈ name || 92 ∈ name || [46, 46] <:+: name

def replyName (requestId : Bytes) : Name := requestId ++ ascii ".cbor"

/-- The directory of a session: its `tmp/`, when there is one, and its files, with their contents of
type `β`. -/
structure Dir (β : Type) where
  tmp : Option (List (Name × β))
  files : List (Name × β)
  deriving DecidableEq

/-- The directory of a session that has just been opened. -/
def Dir.empty (β : Type) : Dir β := ⟨none, []⟩

inductive Stage
  | mkdir
  | write
  | rename
  deriving DecidableEq

/-- A deposit under way: the name and content of the reply, and the next step. -/
structure Job (β : Type) where
  name : Name
  content : β
  stage : Stage
  deriving DecidableEq

/-- The deposit of a reply, refused when its name is unsafe. -/
def deposit {β : Type} (name : Name) (content : β) : Option (Job β) :=
  if unsafeName name then none else some ⟨name, content, .mkdir⟩

/-- The next step of a deposit on the directory, which may not exist: the directory after it, and
what is left of the deposit.  A step that fails changes nothing and ends the deposit. -/
def Job.advance {β : Type} (j : Job β) (d : Option (Dir β)) : Option (Dir β × Option (Job β)) :=
  match j.stage with
  | .mkdir =>
    let d := d.getD (Dir.empty β)
    some ({ d with tmp := some (d.tmp.getD []) }, some { j with stage := .write })
  | .write =>
    match d with
    | some ⟨some tmp, files⟩ =>
      some (⟨some (Table.put tmp j.name j.content), files⟩, some { j with stage := .rename })
    | _ => none
  | .rename =>
    match d with
    | some ⟨some tmp, files⟩ =>
      (Table.get tmp j.name).map fun content =>
        (⟨some (Table.del tmp j.name), Table.put files j.name content⟩, none)
    | _ => none

/-- The files of a directory, none when it does not exist. -/
def files {β : Type} (d : Option (Dir β)) : List (Name × β) := (d.map (·.files)).getD []

def tmpFiles {β : Type} (d : Option (Dir β)) : List (Name × β) := (d.bind (·.tmp)).getD []

/-- What a step of a deposit does to the files, one case for each step. -/
theorem advance_cases {β : Type} {j : Job β} {d : Option (Dir β)} {d' : Dir β} {j' : Option (Job β)}
    (h : j.advance d = some (d', j')) :
    (j.stage = .mkdir ∧ j' = some { j with stage := .write } ∧ files (some d') = files d ∧
      tmpFiles (some d') = tmpFiles d) ∨
    (j.stage = .write ∧ j' = some { j with stage := .rename } ∧ files (some d') = files d ∧
      tmpFiles (some d') = Table.put (tmpFiles d) j.name j.content) ∨
    (j.stage = .rename ∧ j' = none ∧ ∃ c, Table.get (tmpFiles d) j.name = some c ∧
      files (some d') = Table.put (files d) j.name c ∧
      tmpFiles (some d') = Table.del (tmpFiles d) j.name) := by
  obtain ⟨name, content, stage⟩ := j
  cases stage with
  | mkdir =>
    obtain ⟨rfl, rfl⟩ := Prod.mk.inj (Option.some.inj h)
    exact Or.inl ⟨rfl, rfl, by cases d <;> rfl, by cases d <;> rfl⟩
  | write =>
    match d, h with
    | some ⟨some tmp, fs⟩, h =>
      obtain ⟨rfl, rfl⟩ := Prod.mk.inj (Option.some.inj h)
      exact Or.inr (Or.inl ⟨rfl, rfl, rfl, rfl⟩)
  | rename =>
    match d, h with
    | some ⟨some tmp, fs⟩, h =>
      obtain ⟨c, hc, h⟩ := Option.map_eq_some_iff.1 h
      obtain ⟨rfl, rfl⟩ := Prod.mk.inj h
      exact Or.inr (Or.inr ⟨rfl, rfl, c, hc, rfl, rfl⟩)

end Antie.Custody
