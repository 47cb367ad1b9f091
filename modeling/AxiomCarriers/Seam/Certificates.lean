import AxiomCarriers.Antie.WireFormat
import AxiomCarriers.Lib.Base64
import AxiomCarriers.Seam.Deposits

/-!
# Certificates that arrive by mail

`process_message` recognises a certificate by the body of its mail, and `file_vbc_delivery` writes
the mail where the stake wallet's collector reads.  The name of the file is the second of the
arrival and the first bytes of the signer's key, as the mail has them, and a file of that name is
emptied and written again.

So the filed mails stay on disk with their own bytes exactly along the runs in which no later mail
clashes with one of them and leaves other bytes (`filed_kept_iff`).
-/

namespace Seam.Certificates

open Bytes Runs
open Antie.WireFormat (Message)
open Deposits (hexEncode)
open Fatmama (Path)

structure VbcIssuerSignature where
  signature : Bytes
  signerSphincsPk : Bytes
  commitment : Bytes
  deriving DecidableEq

structure VbcDelivery where
  magic : Bytes
  signature : VbcIssuerSignature

/-- The libraries that read mails and CBOR. -/
structure Parsers where
  mail : Bytes → Option Message
  cbor : Bytes → Option VbcDelivery

def vbcDeliveryMagic : Bytes := ascii "AXIOM-VBC-SIG/1"

/-- The characters that are no white space. -/
def compact (text : Bytes) : Bytes := ((Text.marks text).filter fun b => !b.2).map (·.1)

/-- `try_parse_vbc_delivery`. -/
def tryParseVbcDelivery (p : Parsers) (raw : Bytes) : Option VbcIssuerSignature := do
  let message ← p.mail raw
  let body ← message.bodyText
  let bytes ← Base64.decode (compact body)
  let d ← p.cbor bytes
  if d.magic = vbcDeliveryMagic then some d.signature else none

def parent (path : Path) : Option Path := if path = [] then none else some path.dropLast

/-- The directory of the validator, two levels above the funnel. -/
def vdir (inbox : Path) : Path := ((parent inbox).bind parent).getD inbox

/-- The entries of `wallets` that are stake wallets. -/
def stakeDirs (inbox : Path) (wallets : List Bytes) : List Path :=
  (wallets.filter fun name => Utf8.Valid name && ascii "_Stake" <:+ name).map fun name =>
    vdir inbox ++ [ascii "wallets", name]

def destDir (inbox : Path) (wallets : List Bytes) : Path :=
  match stakeDirs inbox wallets with
  | [dir] => dir ++ [ascii "maildir", ascii "inbox", ascii "new"]
  | _ => vdir inbox ++ [ascii "maildir", ascii "vbc", ascii "new"]

/-- The seconds since the epoch as `{}` prints them. -/
def timestamp (secs : ℤ) : Bytes :=
  (if secs < 0 then [45] else []) ++ Text.decimal secs.natAbs

def fileName (secs : ℤ) (sig : VbcIssuerSignature) : Bytes :=
  timestamp secs ++ ascii ".vbc-" ++ hexEncode (sig.signerSphincsPk.take 8) ++ ascii ".eml"

/-- What `create_dir_all` and `fs::write` come to. -/
inductive Write
  /-- The directory or the file is not there to write to. -/
  | unopened
  /-- The file is emptied, and the write fails after so many bytes. -/
  | broken (n : ℕ)
  | whole
  deriving DecidableEq

structure State where
  files : List (Path × Bytes)
  /-- The mails that were reported as filed. -/
  filed : List (Path × Bytes)

/-- The file is written. -/
def write (s : State) (path : Path) (raw : Bytes) : Write → State
  | .unopened => s
  | .broken n => { s with files := Table.put s.files path (raw.take n) }
  | .whole => ⟨Table.put s.files path raw, (path, raw) :: s.filed⟩

/-- A mail, the second at which it is filed, the entries of `wallets` that are read then, and what
becomes of the write. -/
structure Event where
  raw : Bytes
  secs : ℤ
  wallets : List Bytes
  write : Write

def maxMessageBytes : ℕ := 8 * 1024 * 1024

/-- The certificate that `process_message` finds in a mail; one that is too large is dropped before
it is looked at. -/
def certificate (p : Parsers) (raw : Bytes) : Option VbcIssuerSignature :=
  if raw.length > maxMessageBytes then none else tryParseVbcDelivery p raw

/-- The path under which the mail is filed; without a maildir it is dropped. -/
def filing (p : Parsers) (inbox : Option Path) (e : Event) : Option Path := do
  let sig ← certificate p e.raw
  let inbox ← inbox
  some (destDir inbox e.wallets ++ [fileName e.secs sig])

/-- A mail arrives; what is no certificate goes its own way. -/
def step (p : Parsers) (inbox : Option Path) (s : State) (e : Event) : Option State :=
  some (match filing p inbox e with
    | some path => write s path e.raw e.write
    | none => s)

/-- Nothing has been filed yet. -/
def start (files : List (Path × Bytes)) : State := ⟨files, []⟩

/-- Every filed mail is on disk with its own bytes. -/
def Kept (s : State) : Prop := ∀ x ∈ s.filed, Table.get s.files x.1 = some x.2

instance (s : State) : Decidable (Kept s) := inferInstanceAs (Decidable (∀ x ∈ s.filed, _))

/-- The bytes that a write leaves in the file, if it opens it. -/
def Write.leaves (raw : Bytes) : Write → Option Bytes
  | .unopened => none
  | .broken n => some (raw.take n)
  | .whole => some raw

/-- Two certificates go to one directory, in the same second, and the keys of their signers begin
with the same bytes. -/
def Clash (p : Parsers) (inbox : Option Path) (e e' : Event) : Prop :=
  ∃ funnel ∈ inbox, ∃ sig ∈ certificate p e.raw, ∃ sig' ∈ certificate p e'.raw,
    destDir funnel e.wallets = destDir funnel e'.wallets ∧ e.secs = e'.secs ∧
      sig.signerSphincsPk.take 8 = sig'.signerSphincsPk.take 8

/-- What is written is what any mail filed under this path has. -/
def Spares (p : Parsers) (inbox : Option Path) (s : State) (e : Event) : Prop :=
  ∀ path ∈ filing p inbox e, ∀ bytes ∈ e.write.leaves e.raw,
    ∀ x ∈ s.filed, x.1 = path → x.2 = bytes

/-! ## The names -/

theorem hexDigit_inj {m n : UInt8} (hm : m < 16) (hn : n < 16)
    (h : Tot.hexDigit m = Tot.hexDigit n) : m = n := by
  have hinv : ∀ x : BitVec 8, UInt8.ofBitVec x < 16 →
      (if Tot.hexDigit (UInt8.ofBitVec x) < 58 then Tot.hexDigit (UInt8.ofBitVec x) - 48
        else Tot.hexDigit (UInt8.ofBitVec x) - 87) = UInt8.ofBitVec x := by decide +kernel
  have hm' := hinv m.toBitVec hm
  have hn' := hinv n.toBitVec hn
  rw [UInt8.ofBitVec_toBitVec] at hm' hn'
  rw [← hm', ← hn', h]

theorem div_lt (x : UInt8) : x / 16 < 16 := by
  have hx := x.toNat_lt
  rw [UInt8.lt_iff_toNat_lt, UInt8.toNat_div]
  simp only [UInt8.reduceToNat]
  omega

theorem hexEncode_inj {b b' : Bytes} (h : hexEncode b = hexEncode b') : b = b' := by
  induction b generalizing b' with
  | nil =>
    cases b' with
    | nil => rfl
    | cons y b' => cases h
  | cons x b ih =>
    cases b' with
    | nil => cases h
    | cons y b' =>
      obtain ⟨hhigh, hrest⟩ := List.cons.inj h
      obtain ⟨hlow, htail⟩ := List.cons.inj hrest
      have hdiv := congrArg UInt8.toNat (hexDigit_inj (div_lt x) (div_lt y) hhigh)
      have hmod := congrArg UInt8.toNat (hexDigit_inj (UInt8.mod_lt x (by decide))
        (UInt8.mod_lt y (by decide)) hlow)
      rw [UInt8.toNat_div, UInt8.toNat_div] at hdiv
      rw [UInt8.toNat_mod, UInt8.toNat_mod] at hmod
      simp only [UInt8.reduceToNat] at hdiv hmod
      have hxy : x = y := UInt8.toNat_inj.1 (by omega)
      rw [ih htail, hxy]

theorem timestamp_inj {m n : ℤ} (h : timestamp m = timestamp n) : m = n := by
  have hsign : ∀ {a b : ℕ}, 45 :: Text.decimal a ≠ Text.decimal b := by
    intro a b heq
    have hdigit := Text.isDigit_of_mem_decimal (heq ▸ List.mem_cons_self)
    exact absurd hdigit (by decide)
  have habs : ∀ {a b : ℕ}, Text.decimal a = Text.decimal b → a = b := by
    intro a b heq
    rw [← Text.digits_decimal a, heq, Text.digits_decimal]
  unfold timestamp at h
  split_ifs at h with hm hn hn
  · have := habs (List.append_cancel_left h)
    omega
  · exact absurd h hsign
  · exact absurd h.symm hsign
  · have := habs (List.append_cancel_left h)
    omega

theorem notMem_timestamp (n : ℤ) : 46 ∉ timestamp n := by
  have hdecimal : 46 ∉ Text.decimal n.natAbs := fun h =>
    absurd (Text.isDigit_of_mem_decimal h) (by decide)
  unfold timestamp
  split_ifs <;> simp [hdecimal]

/-- The names of two certificates are the same if and only if they arrive in the same second and the
keys of their signers begin with the same bytes. -/
theorem fileName_eq_iff (m n : ℤ) (sig sig' : VbcIssuerSignature) :
    fileName m sig = fileName n sig' ↔
      m = n ∧ sig.signerSphincsPk.take 8 = sig'.signerSphincsPk.take 8 := by
  have hname : ∀ secs (sig : VbcIssuerSignature), fileName secs sig = timestamp secs ++
      46 :: (ascii "vbc-" ++ (hexEncode (sig.signerSphincsPk.take 8) ++ ascii ".eml")) := by
    intro secs sig
    rw [fileName, List.append_assoc, List.append_assoc]
    rfl
  constructor
  · intro h
    rw [hname, hname] at h
    have htimestamp := congrArg (List.takeWhile (· ≠ 46)) h
    rw [Separator.takeWhile_append (notMem_timestamp m),
      Separator.takeWhile_append (notMem_timestamp n)] at htimestamp
    rw [htimestamp] at h
    have hkey := List.append_cancel_left (List.cons.inj (List.append_cancel_left h)).2
    exact ⟨timestamp_inj htimestamp, hexEncode_inj (List.append_cancel_right hkey)⟩
  · rintro ⟨rfl, hkey⟩
    rw [fileName, fileName, hkey]

/-- Two mails are filed under one path if and only if they clash. -/
theorem clash_iff {p : Parsers} {inbox : Option Path} {e e' : Event} : Clash p inbox e e' ↔
    ∃ path, filing p inbox e = some path ∧ filing p inbox e' = some path := by
  constructor
  · rintro ⟨funnel, rfl, sig, hsig, sig', hsig', hdir, hname⟩
    rw [Option.mem_def] at hsig hsig'
    refine ⟨destDir funnel e.wallets ++ [fileName e.secs sig], ?_, ?_⟩
    · rw [filing, hsig]
      rfl
    · rw [filing, hsig', hdir, (fileName_eq_iff _ _ _ _).2 hname]
      rfl
  · rintro ⟨path, he, he'⟩
    simp only [filing, Option.bind_eq_bind, Option.bind_eq_some_iff, Option.some.injEq] at he he'
    obtain ⟨sig, hsig, funnel, hfunnel, rfl⟩ := he
    obtain ⟨sig', hsig', funnel', hfunnel', hpath⟩ := he'
    obtain rfl := Option.some.inj (hfunnel.symm.trans hfunnel')
    obtain ⟨hdir, hname⟩ := List.append_singleton_inj.1 hpath
    exact ⟨funnel, hfunnel, sig, hsig, sig', hsig', hdir.symm,
      (fileName_eq_iff _ _ _ _).1 hname.symm⟩

/-! ## The files -/

variable {p : Parsers} {inbox : Option Path} {s : State}

theorem write_kept_iff (hs : Kept s) (path : Path) (raw : Bytes) (w : Write) :
    Kept (write s path raw w) ↔
      ∀ bytes ∈ w.leaves raw, ∀ x ∈ s.filed, x.1 = path → x.2 = bytes := by
  have hput (bytes : Bytes) :
      (∀ x ∈ s.filed, Table.get (Table.put s.files path bytes) x.1 = some x.2) ↔
        ∀ x ∈ s.filed, x.1 = path → x.2 = bytes := by
    refine forall₂_congr fun x hx => ?_
    by_cases hpath : x.1 = path
    · rw [hpath, Table.get_put_self, Option.some.injEq]
      exact ⟨fun h _ => h.symm, fun h => (h rfl).symm⟩
    · rw [Table.get_put_of_ne (Ne.symm hpath), hs x hx]
      exact iff_of_true rfl fun h => absurd h hpath
  cases w with
  | unopened => exact iff_of_true hs (by simp [Write.leaves])
  | broken n =>
    simp only [Write.leaves, Option.mem_def, Option.some.injEq, forall_eq']
    exact hput (raw.take n)
  | whole =>
    rw [Kept, write, List.forall_mem_cons, Table.get_put_self, and_iff_right rfl, hput]
    simp only [Write.leaves, Option.mem_def, Option.some.injEq, forall_eq']

theorem step_kept_iff {e : Event} {s' : State} (hs : Kept s) (h : step p inbox s e = some s') :
    Kept s' ↔ Spares p inbox s e := by
  obtain rfl := Option.some.inj h
  rw [Spares]
  cases filing p inbox e with
  | none => exact iff_of_true hs (by simp)
  | some path => simpa using write_kept_iff hs path e.raw e.write

theorem exists_run (p : Parsers) (inbox : Option Path) (s : State) (es : List Event) :
    ∃ t, run (step p inbox) s es = some t := by
  induction es generalizing s with
  | nil => exact ⟨s, rfl⟩
  | cons e es ih =>
    obtain ⟨t, ht⟩ := ih _
    exact ⟨t, run_cons_iff.2 ⟨_, rfl, ht⟩⟩

/-- What a run has filed. -/
theorem mem_filed_iff {files : List (Path × Bytes)} {es : List Event}
    (h : run (step p inbox) (start files) es = some s) (x : Path × Bytes) :
    x ∈ s.filed ↔ ∃ e ∈ es, e.write = .whole ∧ filing p inbox e = some x.1 ∧ e.raw = x.2 := by
  induction es using List.reverseRecOn generalizing s with
  | nil =>
    obtain rfl := Option.some.inj h
    simp [start]
  | append_singleton es e ih =>
    obtain ⟨u, hu, he⟩ := run_append_iff.1 h
    rw [run_singleton] at he
    obtain rfl := Option.some.inj he
    simp only [List.mem_append, List.mem_singleton, or_and_right, exists_or, exists_eq_left,
      ← ih hu]
    obtain ⟨path, bytes⟩ := x
    cases filing p inbox e with
    | none => simp
    | some path' => cases e.write <;> simp [write, or_comm, eq_comm]

/-- The filed mails are on disk with their own bytes in every state of a run if and only if no mail
that clashes with a filed one leaves other bytes in its file. -/
theorem filed_kept_iff (p : Parsers) (inbox : Option Path) (files : List (Path × Bytes))
    (es : List Event) :
    (∀ es' s, es' <+: es → run (step p inbox) (start files) es' = some s → Kept s) ↔
      ∀ before e after, es = before ++ e :: after → ∀ e₀ ∈ before, e₀.write = .whole →
        Clash p inbox e₀ e → ∀ bytes ∈ e.write.leaves e.raw, e₀.raw = bytes := by
  obtain ⟨t, ht⟩ := exists_run p inbox (start files) es
  have hstart : Kept (start files) := fun x hx => absurd hx List.not_mem_nil
  rw [← along_iff_invariant (fun _ _ _ => step_kept_iff) hstart ht, along_iff]
  refine forall₃_congr fun before e after => ?_
  constructor
  · intro h hsplit e₀ he₀ hwhole hclash bytes hbytes
    obtain ⟨u, hu⟩ := exists_run p inbox (start files) before
    obtain ⟨path, hpath₀, hpath⟩ := clash_iff.1 hclash
    exact h u hsplit hu path hpath bytes hbytes (path, e₀.raw)
      ((mem_filed_iff hu _).2 ⟨e₀, he₀, hwhole, hpath₀, rfl⟩) rfl
  · intro h u hsplit hu path hpath bytes hbytes x hx hxpath
    obtain ⟨e₀, he₀, hwhole, hpath₀, hraw⟩ := (mem_filed_iff hu x).1 hx
    rw [← hraw]
    exact h hsplit e₀ he₀ hwhole (clash_iff.2 ⟨path, hxpath ▸ hpath₀, hpath⟩) bytes hbytes

/-- Two certificates of one signer arrive in the same second. -/
theorem filed_overwritten : ¬ ∀ (p : Parsers) (inbox : Option Path) (files : List (Path × Bytes))
    (es : List Event) (s : State), run (step p inbox) (start files) es = some s → Kept s := by
  intro h
  -- the signature is the decoded body itself
  let p : Parsers := {
    mail := fun raw => some ⟨none, none, none, fun _ => none,
      (cut (ascii "\r\n\r\n") raw).map (·.2), none⟩
    cbor := fun bytes => some ⟨vbcDeliveryMagic,
      ⟨bytes, List.replicate 32 9, List.replicate 32 3⟩⟩ }
  have hkept := h p (some [ascii "v", ascii "maildir", ascii "inbox"]) []
    [⟨ascii "Subject: a\r\n\r\nAAAA\r\n", 1759600000, [ascii "One_Stake"], .whole⟩,
      ⟨ascii "Subject: b\r\n\r\nBBBB\r\n", 1759600000, [ascii "One_Stake"], .whole⟩] _ rfl
  exact absurd hkept (by decide +kernel)

end Seam.Certificates
