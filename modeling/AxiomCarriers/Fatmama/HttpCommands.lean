import AxiomCarriers.Fatmama.HttpApi
import AxiomCarriers.Lib.Headers

/-!
# The commands `routes-delete` and `routes-wipe`

Each sends a request to the HTTP listener and ends with an exit code.  What a command sends is read
back as the command means it (`readRequest_text`), and its exit code says what has become of the
table (`routesDelete_exit`, `routesWipe_exit`).
-/

namespace Fatmama.HttpApi

open Bytes Deletion

/-! ## The commands -/

/-- The requests of the commands. -/
inductive Command
  | delete (addrs : List Bytes) (withMaildir : Bool)
  | wipe (withMaildirs : Bool)
  deriving DecidableEq

def Command.path : Command → Bytes
  | .delete _ _ => ascii "/routes/delete"
  | .wipe _ => ascii "/routes/wipe"

def Command.fields : Command → List (Bytes × Value)
  | .delete addrs withMaildir =>
    [(ascii "addrs", .list addrs), (ascii "with_maildir", .other withMaildir)]
  | .wipe withMaildirs =>
    [(ascii "confirm", .text (ascii "WIPE_ALL")), (ascii "with_maildirs", .other withMaildirs)]

/-- What the server is to do. -/
def Command.asked : Command → Deletion.Request
  | .delete addrs withMaildir => .delete addrs withMaildir
  | .wipe withMaildirs => .wipe withMaildirs

/-- `json.dumps`, and the header lines of `urllib` for a body. -/
structure Client where
  dumps : Command → Bytes
  headers : Bytes → List Bytes

def requestLine (path : Bytes) : Bytes := ascii "POST " ++ path ++ ascii " HTTP/1.1"

/-- The request as `urllib` writes it. -/
def Client.text (client : Client) (cmd : Command) : Bytes :=
  Headers.written (requestLine cmd.path :: client.headers (client.dumps cmd)) (client.dumps cmd)

/-- `_post_endpoint` to a server in some state: the answer, if it arrives, and the state. -/
def postEndpoint (lib : Library) (c : Config) (how : Address → Cleaning)
    (persistError : Option String) (closed arrives : Bool) (client : Client) (s : State)
    (cmd : Command) : Option Body × State :=
  let (r, t) := handleHttpClient lib c how persistError closed s (client.text cmd)
  (if arrives then r.map Response.body else none, t)

/-- The exit code of a command. -/
def exitCode : Option Body → ℕ
  | some (.summary _) => 0
  | _ => 1

/-- The addresses that the arguments of `routes-delete` name. -/
def given (py : Str) (args : List Bytes) : List Bytes :=
  (args.filter fun a => py.strip a ≠ []).map py.norm

/-- `cmd_routes_delete`: the exit code, and the state of the server. -/
def cmdRoutesDelete (py : Str) (post : Command → Option Body × State) (s : State)
    (args : List Bytes) (withMaildir : Bool) : ℕ × State :=
  if given py args = [] then (1, s)
  else
    let (summary, t) := post (.delete (given py args) withMaildir)
    (exitCode summary, t)

/-- `cmd_routes_wipe`. -/
def cmdRoutesWipe (post : Command → Option Body × State) (s : State) (yes withMaildirs : Bool) :
    ℕ × State :=
  if ¬ yes then (1, s)
  else
    let (summary, t) := post (.wipe withMaildirs)
    (exitCode summary, t)

/-- A character of a text that is printed, or a blank. -/
def isPlain (b : UInt8) : Bool := (32 ≤ b && b ≤ 126) || isWs b

/-- What is documented of `str`: on such texts it does as for ASCII. -/
structure ActsAscii (py : Str) : Prop where
  plain : ∀ t, (∀ b ∈ t, isPlain b) →
    py.strip t = asciiStr.strip t ∧ py.lower t = asciiStr.lower t ∧
    py.upper t = asciiStr.upper t ∧ py.split t = asciiStr.split t
  strip_strip : ∀ t, py.strip (py.strip t) = py.strip t

/-- A header line with its name. -/
def IsField (name h : Bytes) : Prop :=
  (∀ b ∈ name, 33 ≤ b ∧ b ≤ 126 ∧ b ≠ 58) ∧ name ≠ [] ∧
    ∃ value, h = name ++ 58 :: value ∧ ∀ b ∈ value, isPlain b

/-- What is documented of the library, for a command: `int` reads a decimal number, `urlparse`
leaves the path of the endpoint alone, what `dumps` writes is loaded as the object, and `urllib`
announces the length of the body once. -/
structure Documented (lib : Library) (client : Client) (cmd : Command) : Prop where
  int : lib.int (Text.decimal (client.dumps cmd).length) = some ((client.dumps cmd).length : ℤ)
  urlparse : lib.urlparse cmd.path = .ok (cmd.path, [])
  loads : lib.loads (client.dumps cmd) = .ok (.object cmd.fields)
  dumps : client.dumps cmd ≠ []
  lines : ∀ h ∈ client.headers (client.dumps cmd), Headers.IsLine h ∧ h.length < streamLimit
  headers : ∃ before after, client.headers (client.dumps cmd) =
      before ++ (ascii "Content-Length: " ++ Text.decimal (client.dumps cmd).length) :: after ∧
    ∀ h ∈ before ++ after, ∃ name, IsField name h ∧ name.map lower ≠ ascii "content-length"

variable {lib : Library} {c : Config} {how : Address → Cleaning} {persistError : Option String}
  {closed : Bool} {s : State}

theorem isPlain_lt {b : UInt8} (h : isPlain b) : b < 128 := by
  simp only [isPlain, Bool.or_eq_true, Bool.and_eq_true, decide_eq_true_eq] at h
  rcases h with h | h
  · exact UInt8.lt_of_le_of_lt h.2 (by decide)
  · exact isWs_lt h

theorem not_isWs {b : UInt8} (h : 33 ≤ b) : ¬ isWs b := by
  simp only [isWs, Bool.or_eq_true, Bool.and_eq_true, decide_eq_true_eq, not_or, not_and]
  refine ⟨?_, fun _ h13 => ?_⟩
  · rintro rfl
    exact absurd h (by decide)
  · exact absurd (UInt8.le_trans h h13) (by decide)

theorem asciiStrip_rdropWhile (v : Bytes) : asciiStrip (v.rdropWhile isWs) = asciiStrip v := by
  conv_rhs => rw [← List.rdropWhile_append_rtakeWhile (p := isWs) (l := v)]
  exact (asciiStrip_append_ws (fun _ => List.mem_rtakeWhile_imp) _).symm

/-- What a header line says of the content length. -/
theorem contentLength_field (hpy : ActsAscii c.py) {name value : Bytes} (n : ℤ)
    (hname : ∀ b ∈ name, 33 ≤ b ∧ b ≤ 126 ∧ b ≠ 58) (hne : name ≠ [])
    (hvalue : ∀ b ∈ value, isPlain b) :
    contentLength c.py lib n (name ++ 58 :: value) =
      if name.map lower = ascii "content-length" then (lib.int (asciiStrip value)).getD 0
      else n := by
  have hplain : ∀ b ∈ name ++ 58 :: value, isPlain b := by
    intro b hb
    rcases List.mem_append.1 hb with hb | hb
    · obtain ⟨hlo, hhi, -⟩ := hname b hb
      simp only [isPlain, Bool.or_eq_true, Bool.and_eq_true, decide_eq_true_eq]
      exact .inl ⟨UInt8.le_trans (by decide) hlo, hhi⟩
    · rcases List.mem_cons.1 hb with rfl | hb
      · decide
      · exact hvalue b hb
  have hcolon : (58 : UInt8) ∉ name := fun h => (hname 58 h).2.2 rfl
  have hstrip : c.py.strip (Utf8.lossy (name ++ 58 :: value)) =
      name ++ 58 :: value.rdropWhile isWs := by
    rw [Utf8.lossy_of_ascii fun b hb => isPlain_lt (hplain b hb), (hpy.plain _ hplain).1]
    show asciiStrip _ = _
    have hword : ∀ b ∈ name ++ [58], ¬ isWs b := by
      intro b hb
      rcases List.mem_append.1 hb with hb | hb
      · exact not_isWs (hname b hb).1
      · rw [List.mem_singleton.1 hb]
        decide
    have h := asciiStrip_append (List.append_ne_nil_of_left_ne_nil hne [58]) hword value
    rwa [List.append_assoc, List.append_assoc] at h
  have hnorm : c.py.norm name = name.map lower := by
    have hpl : ∀ b ∈ name, isPlain b := fun b hb => hplain b (List.mem_append_left _ hb)
    have hself : c.py.strip name = name := by
      rw [(hpy.plain name hpl).1]
      have h := asciiStrip_append hne (fun b hb => not_isWs (hname b hb).1) []
      rwa [List.append_nil, List.rdropWhile_nil, List.append_nil] at h
    rw [Str.norm, hself, (hpy.plain name hpl).2.1]
    rfl
  have hint : c.py.strip (value.rdropWhile isWs) = asciiStrip value := by
    have hpl : ∀ b ∈ value.rdropWhile isWs, isPlain b := fun b hb =>
      hvalue b ((List.rdropWhile_prefix isWs value).subset hb)
    rw [(hpy.plain _ hpl).1]
    exact asciiStrip_rdropWhile value
  simp only [contentLength, hstrip, Separator.takeWhile_append hcolon, hnorm,
    Separator.dropWhile_append hcolon, List.tail_cons, hint]
  simp

theorem readLine_crlf {l : Bytes} (h : l.length < streamLimit) :
    readLine closed (l ++ crlf) = .ok (l ++ crlf) := by
  have hend : [LF] <:+ l ++ crlf := (List.suffix_append [CR] [LF]).trans (List.suffix_append l crlf)
  have hlen : (l ++ crlf).length ≤ streamLimit + 1 := by
    rw [List.length_append]
    exact Nat.succ_le_succ (Nat.succ_le_of_lt h)
  rw [readLine, if_pos hend, if_pos hlen]

/-- The header lines of a written request are read up to the empty one. -/
theorem readHeaders_written {headers : List Bytes} (data : Bytes)
    (h : ∀ l ∈ headers, Headers.IsLine l ∧ l.length < streamLimit) (n : ℤ) :
    readHeaders c.py lib closed (lines (Headers.written headers data)) n =
      .ok (headers.foldl (fun n l => contentLength c.py lib n (l ++ crlf)) n, lines data) := by
  induction headers generalizing n with
  | nil =>
    have hlines := lines_crlf (x := []) List.not_mem_nil data
    rw [List.nil_append] at hlines
    have hread : readLine closed crlf = .ok crlf := readLine_crlf (l := []) (by decide)
    rw [Headers.written, List.flatMap_nil, List.nil_append, hlines, readHeaders, hread]
    rfl
  | cons l headers ih =>
    rw [List.forall_mem_cons] at h
    obtain ⟨⟨⟨hne, -, hlf⟩, hlen⟩, hrest⟩ := h
    have hwritten : Headers.written (l :: headers) data =
        l ++ crlf ++ Headers.written headers data := by
      rw [Headers.written, Headers.written, List.flatMap_cons, List.append_assoc]
    have hnot : ¬ (l ++ crlf = crlf ∨ l ++ crlf = [LF]) := by
      have hpos := List.length_pos_of_ne_nil hne
      rintro (he | he)
      · exact hne (List.append_left_eq_self.1 he)
      · have := congrArg List.length he
        simp [crlf] at this
    rw [hwritten, lines_crlf hlf, readHeaders, readLine_crlf hlen]
    show (if _ then _ else _) = _
    rw [if_neg hnot, ih hrest]
    rfl

/-- Other header lines leave the content length as it is. -/
theorem foldl_contentLength (hpy : ActsAscii c.py) {ls : List Bytes} (h : ∀ l ∈ ls, ∃ name,
    IsField name l ∧ name.map lower ≠ ascii "content-length") (n : ℤ) :
    ls.foldl (fun n l => contentLength c.py lib n (l ++ crlf)) n = n := by
  induction ls with
  | nil => rfl
  | cons l ls ih =>
    rw [List.forall_mem_cons] at h
    obtain ⟨⟨name, ⟨hname, hne, value, rfl, hvalue⟩, hnot⟩, h⟩ := h
    have hplain : ∀ b ∈ value ++ crlf, isPlain b := fun b hb =>
      (List.mem_append.1 hb).elim (hvalue b) fun hb => (by decide : ∀ b ∈ crlf, isPlain b) b hb
    rw [List.foldl_cons, List.append_assoc, List.cons_append,
      contentLength_field hpy n hname hne hplain, if_neg hnot]
    exact ih h

theorem contentLength_announced (hpy : ActsAscii c.py) {n : ℕ}
    (hint : lib.int (Text.decimal n) = some (n : ℤ)) (m : ℤ) :
    contentLength c.py lib m (ascii "Content-Length: " ++ Text.decimal n ++ crlf) = n := by
  have hdigit : ∀ b ∈ Text.decimal n, 48 ≤ b ∧ b ≤ 57 := fun b hb => by
    have h := Text.isDigit_of_mem_decimal hb
    simpa only [Text.isDigit, Bool.and_eq_true, decide_eq_true_eq] using h
  have hplain : ∀ b ∈ (32 :: Text.decimal n) ++ crlf, isPlain b := by
    intro b hb
    rcases List.mem_append.1 hb with hb | hb
    · rcases List.mem_cons.1 hb with rfl | hb
      · decide
      · obtain ⟨hlo, hhi⟩ := hdigit b hb
        simp only [isPlain, Bool.or_eq_true, Bool.and_eq_true, decide_eq_true_eq]
        exact .inl ⟨UInt8.le_trans (by decide) hlo, UInt8.le_trans hhi (by decide)⟩
    · exact (by decide : ∀ b ∈ crlf, isPlain b) b hb
  have hself := asciiStrip_append (Text.decimal_ne_nil n)
    (fun b hb => not_isWs (UInt8.le_trans (by decide) (hdigit b hb).1)) []
  rw [List.append_nil, List.rdropWhile_nil, List.append_nil] at hself
  have hname : ascii "Content-Length: " = ascii "Content-Length" ++ [58, 32] := by decide
  have hfield : ascii "Content-Length: " ++ Text.decimal n ++ crlf =
      ascii "Content-Length" ++ 58 :: ((32 :: Text.decimal n) ++ crlf) := by
    rw [hname]
    simp
  rw [hfield, contentLength_field hpy m (by decide) (by decide) hplain, if_pos (by decide),
    asciiStrip_append_ws (by decide), asciiStrip_cons (by decide), hself, hint, Option.getD_some]

theorem requestLine_ascii : ∀ path ∈ [ascii "/routes/delete", ascii "/routes/wipe"],
    LF ∉ requestLine path ∧ (requestLine path).length < streamLimit ∧
    (∀ b ∈ requestLine path ++ crlf, isPlain b) ∧
    asciiStr.strip (requestLine path ++ crlf) = requestLine path ∧
    asciiStr.split (requestLine path) = [ascii "POST", path, ascii "HTTP/1.1"] := by
  decide +kernel

/-- The body that is announced is read. -/
theorem readBody_announced {data : Bytes} (hne : data ≠ []) :
    readBody closed (ascii "POST") (data.length : ℤ) data =
      if maxBody < data.length then .error (some ⟨413, .error (ascii "body too large")⟩)
      else .ok data := by
  have hpos : (0 : ℤ) < data.length := Int.natCast_pos.2 (List.length_pos_of_ne_nil hne)
  rw [readBody, if_pos ⟨rfl, hpos⟩]
  simp only [Int.ofNat_lt, Int.toNat_natCast, readExactly, le_refl, if_true, List.take_length]
  rfl

/-- What the server reads of the request of a command. -/
theorem readRequest_text (hpy : ActsAscii c.py) {client : Client} {cmd : Command}
    (hdoc : Documented lib client cmd) (closed : Bool) :
    readRequest c.py lib closed (client.text cmd) =
      if maxBody < (client.dumps cmd).length then
        .error (some ⟨413, .error (ascii "body too large")⟩)
      else .ok ⟨ascii "POST", cmd.path, client.dumps cmd⟩ := by
  have hpath : cmd.path ∈ [ascii "/routes/delete", ascii "/routes/wipe"] := by
    cases cmd <;> simp [Command.path]
  obtain ⟨hlf, hshort, hplain, hstrip, hsplit⟩ := requestLine_ascii cmd.path hpath
  have hwords : c.py.split (c.py.strip (Utf8.lossy (requestLine cmd.path ++ crlf))) =
      [ascii "POST", cmd.path, ascii "HTTP/1.1"] := by
    rw [Utf8.lossy_of_ascii fun b hb => isPlain_lt (hplain b hb), (hpy.plain _ hplain).1, hstrip,
      (hpy.plain _ fun b hb => hplain b (List.mem_append_left _ hb)).2.2.2, hsplit]
  have hupper : c.py.upper (ascii "POST") = ascii "POST" := by
    rw [(hpy.plain _ (by decide)).2.2.1]
    decide
  have hlength : (client.headers (client.dumps cmd)).foldl
      (fun n l => contentLength c.py lib n (l ++ crlf)) 0 = ((client.dumps cmd).length : ℤ) := by
    obtain ⟨before, after, hheaders, hother⟩ := hdoc.headers
    rw [hheaders, List.foldl_append, List.foldl_cons, contentLength_announced hpy hdoc.int]
    exact foldl_contentLength hpy (fun l hl => hother l (List.mem_append_right _ hl)) _
  have hlines : lines (client.text cmd) = (requestLine cmd.path ++ crlf) ::
      lines (Headers.written (client.headers (client.dumps cmd)) (client.dumps cmd)) := by
    rw [Client.text, Headers.written, List.flatMap_cons, List.append_assoc, lines_crlf hlf]
    rfl
  have hread := @readHeaders_written lib c closed _ (client.dumps cmd) hdoc.lines 0
  unfold readRequest
  rw [hlines]
  dsimp only
  rw [readLine_crlf hshort]
  dsimp only [Except.mapError, bind, Except.bind]
  rw [hwords]
  dsimp only
  rw [hupper, if_neg (by decide), hread]
  show (readBody closed (ascii "POST") _ (lines (client.dumps cmd)).flatten >>= _) = _
  rw [hlength, flatten_lines, readBody_announced hdoc.dumps]
  split_ifs <;> rfl

/-- A command that names an address. -/
def Command.Names : Command → Prop
  | .delete addrs _ => addrs ≠ []
  | .wipe _ => True

theorem asked_text {client : Client} {cmd : Command} (hdoc : Documented lib client cmd)
    (hnames : cmd.Names) :
    Request.asked lib ⟨ascii "POST", cmd.path, client.dumps cmd⟩ = .ok cmd.asked := by
  simp only [Request.asked, hdoc.urlparse, if_neg hdoc.dumps, hdoc.loads, if_true]
  cases cmd with
  | delete addrs withMaildir =>
    obtain ⟨a, as, rfl⟩ := List.exists_cons_of_ne_nil hnames
    rfl
  | wipe withMaildirs => rfl

/-- What a command sends is done as the command means it, unless it is too long. -/
theorem handle_text (hpy : ActsAscii c.py) {client : Client} {cmd : Command}
    (hdoc : Documented lib client cmd) (hnames : cmd.Names) :
    handleHttpClient lib c how persistError closed s (client.text cmd) =
      if maxBody < (client.dumps cmd).length then
        (some ⟨413, .error (ascii "body too large")⟩, s)
      else (some (respond (perform c how persistError s cmd.asked).1),
        (perform c how persistError s cmd.asked).2) := by
  rw [handleHttpClient, readRequest_text hpy hdoc]
  split_ifs
  · rfl
  · dsimp only
    rw [asked_text hdoc hnames]

/-- The exit code of a command is 0 if and only if its request is short enough, there is a report,
and the answer arrives. -/
theorem exitCode_iff (hpy : ActsAscii c.py) {client : Client} {cmd : Command}
    (hdoc : Documented lib client cmd) (hnames : cmd.Names) (arrives : Bool) :
    exitCode (postEndpoint lib c how persistError closed arrives client s cmd).1 = 0 ↔
      arrives ∧ (client.dumps cmd).length ≤ maxBody ∧
        ∃ r, (perform c how persistError s cmd.asked).1 = .ok r := by
  rw [postEndpoint, handle_text hpy hdoc hnames]
  by_cases hmax : maxBody < (client.dumps cmd).length
  · rw [if_pos hmax]
    cases arrives <;> simp [exitCode, hmax.not_ge]
  · rw [if_neg hmax]
    cases hresult : (perform c how persistError s cmd.asked).1 <;> cases arrives <;>
      simp [exitCode, respond, Nat.le_of_not_lt hmax]

/-- A request that is too long changes nothing, and any other is performed. -/
theorem postEndpoint_state (hpy : ActsAscii c.py) {client : Client} {cmd : Command}
    (hdoc : Documented lib client cmd) (hnames : cmd.Names) (arrives : Bool) :
    (postEndpoint lib c how persistError closed arrives client s cmd).2 =
      if (client.dumps cmd).length ≤ maxBody then (perform c how persistError s cmd.asked).2
      else s := by
  rw [postEndpoint, handle_text hpy hdoc hnames]
  by_cases hmax : maxBody < (client.dumps cmd).length
  · rw [if_pos hmax, if_neg hmax.not_ge]
  · rw [if_neg hmax, if_pos (Nat.le_of_not_lt hmax)]

/-! ## What the exit codes say -/

theorem perform_error {q : Deletion.Request} (h : persistError = none) :
    ∃ r, (perform c how persistError s q).1 = .ok r := by
  obtain ⟨d, -, -, herror, -⟩ := perform_spec c how persistError s q
  cases hresult : (perform c how persistError s q).1 with
  | ok r => exact ⟨r, rfl⟩
  | error e => exact absurd ((herror e hresult).symm.trans h) (Option.some_ne_none e)

/-- The deletion of addresses leaves the protected ones of them. -/
theorem get_delete (addrs : List Address) (withMaildir : Bool) (a : Address) :
    Table.get (perform c how persistError s (.delete addrs withMaildir)).2.routes a =
      if a ∈ addrs.map c.py.norm ∧ a ≠ [] then (Table.get s.routes a).filter isProtected
      else Table.get s.routes a := by
  obtain ⟨hfalls, hstays⟩ := @get_perform c how persistError s (.delete addrs withMaildir) a
  by_cases hgiven : a ∈ addrs.map c.py.norm ∧ a ≠ []
  · rw [if_pos hgiven]
    by_cases hnot : ∀ p ∈ Table.get s.routes a, ¬ isProtected p
    · rw [hfalls ⟨hgiven.1, hgiven.2, hnot⟩]
      exact (Option.filter_eq_none_iff.2 hnot).symm
    · rw [hstays fun h => hnot h.2.2]
      cases hget : Table.get s.routes a with
      | none => rfl
      | some p =>
        have hp : isProtected p := by
          by_contra hp
          refine hnot fun q hq => ?_
          rwa [Option.some.inj (hget.symm.trans hq)] at hp
        rw [Option.filter_some, if_pos hp]
  · rw [if_neg hgiven]
    exact hstays fun h => hgiven ⟨h.1, h.2.1⟩

/-- What the command makes of its arguments names what they name. -/
theorem mem_given (hpy : ActsAscii c.py) {args : List Bytes} {a : Address} :
    (a ∈ (given c.py args).map c.py.norm ∧ a ≠ []) ↔ (a ∈ args.map c.py.norm ∧ a ≠ []) := by
  have hnorm : ∀ t, c.py.norm (c.py.norm t) = c.py.norm t := fun t =>
    c.py.lower_stripped (c.py.strip t) (hpy.strip_strip t)
  have hnil : c.py.lower [] = [] := (hpy.plain [] (by simp)).2.1
  refine and_congr_left fun hne => ?_
  simp only [given, List.mem_map, List.mem_filter, decide_eq_true_eq]
  constructor
  · rintro ⟨-, ⟨x, ⟨hx, -⟩, rfl⟩, rfl⟩
    exact ⟨x, hx, (hnorm x).symm⟩
  · rintro ⟨x, hx, rfl⟩
    refine ⟨_, ⟨x, ⟨hx, fun hblank => hne ?_⟩, rfl⟩, hnorm x⟩
    rw [Str.norm, hblank, hnil]

/-- `routes-delete` with a route in other letters and a protected one. -/
def sampleArgs : List Bytes := [ascii "A@axiom ", ascii " ", ascii "v@axiom"]

def sampleDelete : Command := .delete (given asciiStr sampleArgs) true

def sampleWipe : Command := .wipe false

def sampleClient : Client where
  dumps
    | .delete _ _ => sampleText
    | .wipe _ => sampleWipeText
  headers data :=
    [ascii "Accept-Encoding: identity", ascii "Content-Length: " ++ Text.decimal data.length,
      ascii "Host: 127.0.0.1:2526", ascii "Content-Type: application/json",
      ascii "Connection: close"]

theorem actsAscii_asciiStr : ActsAscii asciiStr :=
  ⟨fun _ _ => ⟨rfl, rfl, rfl, rfl⟩, asciiStrip_asciiStrip⟩

theorem documented_sample {cmd : Command} (h : cmd ∈ [sampleDelete, sampleWipe]) :
    Documented sampleLibrary sampleClient cmd where
  int := by revert cmd; decide +kernel
  urlparse := by
    rcases List.mem_cons.1 h with rfl | h
    · rfl
    · obtain rfl := List.mem_singleton.1 h
      rfl
  loads := by
    rcases List.mem_cons.1 h with rfl | h
    · rfl
    · obtain rfl := List.mem_singleton.1 h
      rfl
  dumps := by revert cmd; decide +kernel
  lines := by revert cmd; decide +kernel
  headers := by
    refine ⟨[ascii "Accept-Encoding: identity"], [ascii "Host: 127.0.0.1:2526",
      ascii "Content-Type: application/json", ascii "Connection: close"], rfl, fun l hl => ?_⟩
    rw [List.singleton_append] at hl
    simp only [List.mem_cons, List.not_mem_nil, or_false] at hl
    rcases hl with rfl | rfl | rfl | rfl
    · exact ⟨ascii "Accept-Encoding", ⟨by decide, by decide, ascii " identity", by decide,
        by decide⟩, by decide⟩
    · exact ⟨ascii "Host", ⟨by decide, by decide, ascii " 127.0.0.1:2526", by decide, by decide⟩,
        by decide⟩
    · exact ⟨ascii "Content-Type", ⟨by decide, by decide, ascii " application/json", by decide,
        by decide⟩, by decide⟩
    · exact ⟨ascii "Connection", ⟨by decide, by decide, ascii " close", by decide, by decide⟩,
        by decide⟩

/-- `routes-delete` against a server.  When it exits with 0, no address that was given has a route
any more but protected ones, which have theirs, and every other address keeps its own.  When it
exits with 1 and the routes file can be written, the answer did not arrive, or nothing has
changed. -/
theorem routesDelete_exit (hpy : ActsAscii c.py) {client : Client} {args : List Bytes}
    {withMaildir : Bool} (hdoc : Documented lib client (.delete (given c.py args) withMaildir))
    (how : Address → Cleaning) (persistError : Option String) (closed arrives : Bool) (s : State) :
    let post := postEndpoint lib c how persistError closed arrives client s
    ((cmdRoutesDelete c.py post s args withMaildir).1 = 0 → ∀ a,
      Table.get (cmdRoutesDelete c.py post s args withMaildir).2.routes a =
        if a ∈ args.map c.py.norm ∧ a ≠ [] then (Table.get s.routes a).filter isProtected
        else Table.get s.routes a) ∧
    ((cmdRoutesDelete c.py post s args withMaildir).1 ≠ 0 → persistError = none → arrives →
      (cmdRoutesDelete c.py post s args withMaildir).2 = s) := by
  intro post
  unfold cmdRoutesDelete
  dsimp only
  by_cases hnone : given c.py args = []
  · rw [if_pos hnone]
    exact ⟨fun h => absurd h one_ne_zero, fun _ _ _ => rfl⟩
  · rw [if_neg hnone]
    dsimp only [post]
    have hnames : (Command.delete (given c.py args) withMaildir).Names := hnone
    rw [postEndpoint_state hpy hdoc hnames]
    refine ⟨fun hexit a => ?_, fun hexit hpersist harrives => if_neg fun hshort => hexit ?_⟩
    · obtain ⟨-, hshort, -⟩ := (exitCode_iff hpy hdoc hnames arrives).1 hexit
      rw [if_pos hshort, Command.asked, get_delete]
      exact if_congr (mem_given hpy) rfl rfl
    · exact (exitCode_iff hpy hdoc hnames arrives).2 ⟨harrives, hshort, perform_error hpersist⟩

theorem routesDelete_exit_sample :
    let post := postEndpoint sampleLibrary sampleConfig sampleCleaning none false true sampleClient
      sampleState
    (cmdRoutesDelete asciiStr post sampleState sampleArgs true).1 = 0 ∧ ∀ a,
      Table.get (cmdRoutesDelete asciiStr post sampleState sampleArgs true).2.routes a =
        if a ∈ sampleArgs.map asciiStr.norm ∧ a ≠ [] then
          (Table.get sampleState.routes a).filter isProtected
        else Table.get sampleState.routes a := by
  intro post
  have hexit : (cmdRoutesDelete asciiStr post sampleState sampleArgs true).1 = 0 := by
    decide +kernel
  have hdoc : Documented sampleLibrary sampleClient sampleDelete := documented_sample (by decide)
  exact ⟨hexit, (routesDelete_exit (c := sampleConfig) actsAscii_asciiStr hdoc sampleCleaning none
    false true sampleState).1 hexit⟩

/-- `routes-wipe` against a server.  When it exits with 0, no address has a route any more but
protected ones, and names that are not as the server writes them.  It does nothing unless it is told
to. -/
theorem routesWipe_exit (hpy : ActsAscii c.py) {client : Client} {withMaildirs : Bool}
    (hdoc : Documented lib client (.wipe withMaildirs)) (how : Address → Cleaning)
    (persistError : Option String) (closed arrives yes : Bool) (s : State) :
    let post := postEndpoint lib c how persistError closed arrives client s
    ((cmdRoutesWipe post s yes withMaildirs).1 = 0 → yes ∧ ∀ a, c.py.norm a = a → a ≠ [] →
      Table.get (cmdRoutesWipe post s yes withMaildirs).2.routes a =
        (Table.get s.routes a).filter isProtected) ∧
    ((cmdRoutesWipe post s yes withMaildirs).1 ≠ 0 → yes = false ∨ persistError = none ∧ arrives →
      (cmdRoutesWipe post s yes withMaildirs).2 = s) := by
  intro post
  unfold cmdRoutesWipe
  cases yes with
  | false => exact ⟨fun h => absurd h one_ne_zero, fun _ _ => rfl⟩
  | true =>
    dsimp only [post]
    rw [if_neg (by simp), postEndpoint_state hpy hdoc trivial]
    refine ⟨fun hexit => ⟨rfl, fun a hnorm hne => ?_⟩, fun hexit h => if_neg fun hshort => hexit ?_⟩
    · obtain ⟨-, hshort, -⟩ := (exitCode_iff hpy hdoc trivial arrives).1 hexit
      rw [if_pos hshort]
      have hsame : perform c how persistError s (Command.wipe withMaildirs).asked =
          perform c how persistError s (.delete (Table.keys s.routes) withMaildirs) := rfl
      rw [hsame, get_delete]
      split_ifs with hgiven
      · rfl
      · have hget : Table.get s.routes a = none := Table.get_eq_none fun hmem =>
          hgiven ⟨List.mem_map.2 ⟨a, hmem, hnorm⟩, hne⟩
        rw [hget]
        rfl
    · obtain ⟨hpersist, harrives⟩ := h.resolve_left (by simp)
      exact (exitCode_iff hpy hdoc trivial arrives).2 ⟨harrives, hshort, perform_error hpersist⟩

theorem routesWipe_exit_sample :
    let post := postEndpoint sampleLibrary sampleConfig sampleCleaning none false true sampleClient
      sampleState
    (cmdRoutesWipe post sampleState true false).1 = 0 ∧
    (true ∧ ∀ a, asciiStr.norm a = a → a ≠ [] →
      Table.get (cmdRoutesWipe post sampleState true false).2.routes a =
        (Table.get sampleState.routes a).filter isProtected) := by
  intro post
  have hexit : (cmdRoutesWipe post sampleState true false).1 = 0 := by decide +kernel
  have hdoc : Documented sampleLibrary sampleClient sampleWipe := documented_sample (by decide)
  exact ⟨hexit, (routesWipe_exit (c := sampleConfig) actsAscii_asciiStr hdoc sampleCleaning none
    false true true sampleState).1 hexit⟩

end Fatmama.HttpApi
