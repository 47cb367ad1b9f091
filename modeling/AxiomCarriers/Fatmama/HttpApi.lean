import AxiomCarriers.Fatmama.Deletion
import AxiomCarriers.Fatmama.Smtp
import AxiomCarriers.Lib.Text

/-!
# The HTTP listener of FATMAMA

`_handle_http_client` reads one request, answers it and closes.  The pages are for monitoring; two
endpoints delete routes.

Whatever the bytes of a client are, its connection deletes nothing unless they are a POST to one of
the two endpoints with a list of addresses or the confirmation in its body (`changes_asked`).
-/

namespace Fatmama.HttpApi

open Bytes Deletion

/-! ## The library -/

/-- A value in a JSON object: a list with the text of each item, a text, or another one with its
truth value. -/
inductive Value
  | list (items : List Bytes)
  | text (t : Bytes)
  | other (truth : Bool)
  deriving DecidableEq

/-- `bool` of a value. -/
def Value.truth : Value → Bool
  | .list items => items ≠ []
  | .text t => t ≠ []
  | .other truth => truth

/-- A value that `json.loads` returns: an object, or one without `get`, with the text of the error
that this raises. -/
inductive Json
  | object (fields : List (Bytes × Value))
  | other (e : Bytes)

/-- An exception of `json.loads`: a `JSONDecodeError`, or the body is no UTF-8. -/
inductive LoadError
  | malformed (e : Bytes)
  | other (e : Bytes)

/-- `int` on texts, `urlparse` with its path and query, and `json.loads`. -/
structure Library where
  int : Bytes → Option ℤ
  urlparse : Bytes → Except Bytes (Bytes × Bytes)
  loads : Bytes → Except LoadError Json

/-! ## Requests and responses -/

inductive Page
  | health
  | stats
  | routes
  | events
  | perRecipientLifetime
  | perRecipient
  deriving DecidableEq

/-- The body of a response. -/
inductive Body
  | error (text : Bytes)
  | hinted (text hint : Bytes)
  | summary (r : Report)
  | page (p : Page) (query : Bytes)
  deriving DecidableEq

structure Response where
  status : ℕ
  body : Body
  deriving DecidableEq

/-- How a read ends without what was to be read. -/
inductive Stop
  | timeout
  | raised (e : Bytes)

def Stop.response : Stop → Option Response
  | .timeout => none
  | .raised e => some ⟨500, .error e⟩

/-- `readline`, where the next line is `l`; the client may have closed its side behind all that it
has sent. -/
def readLine (closed : Bool) (l : Bytes) : Except Stop Bytes :=
  if [LF] <:+ l then
    if l.length ≤ streamLimit + 1 then .ok l
    else .error (.raised (ascii "Separator is found, but chunk is longer than limit"))
  else if streamLimit < l.length then
    .error (.raised (ascii "Separator is not found, and chunk exceed the limit"))
  else if closed then .ok l
  else .error .timeout

/-- The content length after a header line. -/
def contentLength (py : Str) (lib : Library) (n : ℤ) (hdr : Bytes) : ℤ :=
  let t := py.strip (Utf8.lossy hdr)
  if 58 ∈ t ∧ py.norm (t.takeWhile (· ≠ 58)) = ascii "content-length" then
    (lib.int (py.strip (t.dropWhile (· ≠ 58)).tail)).getD 0
  else n

/-- The loop over the header lines: the content length, and the lines behind the empty one. -/
def readHeaders (py : Str) (lib : Library) (closed : Bool) :
    List Bytes → ℤ → Except Stop (ℤ × List Bytes)
  | [], n => if closed then .ok (n, []) else .error .timeout
  | l :: rest, n => do
    let hdr ← readLine closed l
    if hdr = crlf ∨ hdr = [LF] then .ok (n, rest)
    else readHeaders py lib closed rest (contentLength py lib n hdr)

def readExactly (closed : Bool) (n : ℕ) (input : Bytes) : Except Stop Bytes :=
  if n ≤ input.length then .ok (input.take n)
  else if closed then .error (.raised (Text.decimal input.length ++
    ascii " bytes read on a total of " ++ Text.decimal n ++ ascii " expected bytes"))
  else .error .timeout

def maxBody : ℕ := 256 * 1024

structure Request where
  method : Bytes
  target : Bytes
  body : Bytes
  deriving DecidableEq

/-- The body of a request. -/
def readBody (closed : Bool) (method : Bytes) (n : ℤ) (input : Bytes) :
    Except (Option Response) Bytes :=
  if method = ascii "POST" ∧ 0 < n then
    if (maxBody : ℤ) < n then .error (some ⟨413, .error (ascii "body too large")⟩)
    else (readExactly closed n.toNat input).mapError Stop.response
  else .ok []

/-- The request, or the answer to what is none; no answer for nothing, or too late. -/
def readRequest (py : Str) (lib : Library) (closed : Bool) (input : Bytes) :
    Except (Option Response) Request :=
  match lines input with
  | [] => .error none
  | l :: rest => do
    let line ← (readLine closed l).mapError Stop.response
    match py.split (py.strip (Utf8.lossy line)) with
    | method :: target :: _ :: _ =>
      let method := py.upper method
      if method ≠ ascii "GET" ∧ method ≠ ascii "POST" then
        .error (some ⟨405, .error (ascii "method not allowed")⟩)
      else do
        let (n, rest) ← (readHeaders py lib closed rest 0).mapError Stop.response
        let body ← readBody closed method n rest.flatten
        return ⟨method, target, body⟩
    | _ => .error (some ⟨400, .error (ascii "malformed request")⟩)

/-! ## The endpoints -/

def LoadError.response : LoadError → Response
  | .malformed e => ⟨400, .error (ascii "bad JSON: " ++ e)⟩
  | .other e => ⟨500, .error e⟩

def Json.fields : Json → Except Response (List (Bytes × Value))
  | .object fields => .ok fields
  | .other e => .error ⟨500, .error e⟩

/-- The answer to the outcome of a deletion. -/
def respond : Except String Report → Response
  | .ok r => ⟨200, .summary r⟩
  | .error e => ⟨500, .error (utf8 e)⟩

/-- What the body of `/routes/delete` asks for. -/
def deleteAsked (fields : List (Bytes × Value)) : Except Response Deletion.Request :=
  match Table.get fields (ascii "addrs") with
  | some (.list (a :: as)) =>
    .ok (.delete (a :: as) ((Table.get fields (ascii "with_maildir")).any Value.truth))
  | _ => .error ⟨400, .error (ascii "addrs (non-empty list) required")⟩

/-- What the body of `/routes/wipe` asks for. -/
def wipeAsked (fields : List (Bytes × Value)) : Except Response Deletion.Request :=
  if Table.get fields (ascii "confirm") = some (.text (ascii "WIPE_ALL")) then
    .ok (.wipe ((Table.get fields (ascii "with_maildirs")).any Value.truth))
  else .error ⟨400, .hinted (ascii "explicit confirmation required")
    (ascii "send body \x7b\"confirm\":\"WIPE_ALL\", \"with_maildirs\":bool\x7d")⟩

/-- What a POST asks for: the body is loaded first, whatever the path is. -/
def postAsked (path : Bytes) (loaded : Except LoadError Json) :
    Except Response Deletion.Request := do
  let body ← loaded.mapError LoadError.response
  if path = ascii "/routes/delete" then
    let fields ← body.fields
    deleteAsked fields
  else if path = ascii "/routes/wipe" then
    let fields ← body.fields
    wipeAsked fields
  else .error ⟨404, .error (ascii "no such POST endpoint")⟩

def Page.path : Page → Bytes
  | .health => ascii "/health"
  | .stats => ascii "/stats"
  | .routes => ascii "/routes"
  | .events => ascii "/events"
  | .perRecipientLifetime => ascii "/per-recipient-lifetime"
  | .perRecipient => ascii "/per-recipient"

def get (path query : Bytes) : Response :=
  match [Page.health, .stats, .routes, .events, .perRecipientLifetime, .perRecipient].find?
    (·.path = path) with
  | some p => ⟨200, .page p query⟩
  | none => ⟨404, .error (ascii "no such endpoint")⟩

/-- What a request asks for, and the answer to one that asks for no deletion. -/
def Request.asked (lib : Library) (q : Request) : Except Response Deletion.Request :=
  match lib.urlparse q.target with
  | .error e => .error ⟨500, .error e⟩
  | .ok (path, query) =>
    if q.method = ascii "POST" then
      postAsked path (if q.body = [] then .ok (.object []) else lib.loads q.body)
    else .error (get path query)

/-- `_handle_http_client`, once the routes are reloaded: the answer, and the state. -/
def handleHttpClient (lib : Library) (c : Config) (how : Address → Cleaning)
    (persistError : Option String) (closed : Bool) (s : State) (input : Bytes) :
    Option Response × State :=
  match readRequest c.py lib closed input with
  | .error r => (r, s)
  | .ok q =>
    match q.asked lib with
    | .error r => (some r, s)
    | .ok asked =>
      let (result, t) := perform c how persistError s asked
      (some (respond result), t)

variable {lib : Library} {c : Config} {how : Address → Cleaning} {persistError : Option String}
  {closed : Bool} {s : State} {input : Bytes}

/-! ## What a deletion does to the table -/

/-- The deletion of the addresses is to remove the route. -/
def Falls (c : Config) (routes : List (Address × Path)) (addrs : List Address) (a : Address) :
    Prop :=
  a ∈ addrs.map c.py.norm ∧ a ≠ [] ∧ ∀ p ∈ Table.get routes a, ¬ isProtected p

theorem get_apply (routes : List (Address × Path)) (raw a : Address) :
    (Falls c routes [raw] a → Table.get ((verdict c routes raw).apply routes) a = none) ∧
    (¬ Falls c routes [raw] a →
      Table.get ((verdict c routes raw).apply routes) a = Table.get routes a) := by
  simp only [Falls, List.map_cons, List.map_nil, List.mem_singleton]
  unfold verdict
  dsimp only
  split
  · rename_i hget
    refine ⟨?_, fun _ => rfl⟩
    rintro ⟨rfl, -, -⟩
    exact hget
  · rename_i maildir hget
    split_ifs with hempty hprotected
    · refine ⟨?_, fun _ => rfl⟩
      rintro ⟨rfl, hne, -⟩
      exact absurd hempty hne
    · refine ⟨?_, fun _ => rfl⟩
      rintro ⟨rfl, -, hnot⟩
      exact absurd hprotected (hnot maildir hget)
    · rw [Verdict.apply]
      refine ⟨fun h => by rw [h.1, Table.get_del_self], fun h => Table.get_del_of_ne ?_ routes⟩
      rintro rfl
      exact h ⟨rfl, hempty, fun p hp => Option.some.inj (hget.symm.trans hp) ▸ hprotected⟩

/-- A deletion removes the routes that it names, and no protected one. -/
theorem get_foldl {withMaildir : Bool} (addrs : List Address) (d : State × Report) (a : Address) :
    (Falls c d.1.routes addrs a →
      Table.get (addrs.foldl (deleteOne c withMaildir how) d).1.routes a = none) ∧
    (¬ Falls c d.1.routes addrs a →
      Table.get (addrs.foldl (deleteOne c withMaildir how) d).1.routes a =
        Table.get d.1.routes a) := by
  induction addrs generalizing d with
  | nil => exact ⟨fun h => absurd h.1 List.not_mem_nil, fun _ => rfl⟩
  | cons raw addrs ih =>
    obtain ⟨hfalls, hstays⟩ := ih (deleteOne c withMaildir how d raw)
    obtain ⟨hfalls', hstays'⟩ := @get_apply c d.1.routes raw a
    rw [(deleteOne_spec d raw).1] at hfalls hstays
    rw [List.foldl_cons]
    by_cases hraw : Falls c d.1.routes [raw] a
    · have hnone := hfalls' hraw
      refine ⟨fun _ => ?_, fun h => absurd ⟨List.mem_cons.2 (.inl (List.mem_singleton.1 hraw.1)),
        hraw.2⟩ h⟩
      by_cases hrest : Falls c ((verdict c d.1.routes raw).apply d.1.routes) addrs a
      · exact hfalls hrest
      · rw [hstays hrest, hnone]
    · have hsame := hstays' hraw
      have hiff : Falls c ((verdict c d.1.routes raw).apply d.1.routes) addrs a ↔
          Falls c d.1.routes (raw :: addrs) a := by
        rw [Falls, Falls, hsame]
        refine and_congr_left fun h => ⟨List.mem_cons_of_mem _, fun hmem => ?_⟩
        refine (List.mem_cons.1 hmem).resolve_left fun he => hraw ⟨?_, h⟩
        exact List.mem_singleton.2 he
      exact ⟨fun h => hfalls (hiff.2 h), fun h => (hstays fun hf => h (hiff.1 hf)).trans hsame⟩

theorem get_perform (q : Deletion.Request) (a : Address) :
    (Falls c s.routes (q.addrs s) a →
      Table.get (perform c how persistError s q).2.routes a = none) ∧
    (¬ Falls c s.routes (q.addrs s) a →
      Table.get (perform c how persistError s q).2.routes a = Table.get s.routes a) := by
  obtain ⟨d, rfl, hstate, -, -⟩ := perform_spec c how persistError s q
  rw [hstate]
  exact @get_foldl c how q.withMaildir (q.addrs s) (s, ⟨[], [], [], [], 0, 0, 0⟩) a

/-! ## What changes the routes -/

theorem readLine_eq {l hdr : Bytes} (h : readLine closed l = .ok hdr) : hdr = l := by
  unfold readLine at h
  split_ifs at h <;> exact (Except.ok.inj h).symm

theorem readHeaders_suffix {ls rest : List Bytes} {n m : ℤ}
    (h : readHeaders c.py lib closed ls n = .ok (m, rest)) : rest <:+ ls := by
  induction ls generalizing n with
  | nil =>
    rw [readHeaders] at h
    split_ifs at h
    obtain rfl := congrArg Prod.snd (Except.ok.inj h)
    exact List.suffix_rfl
  | cons l ls ih =>
    rw [readHeaders] at h
    obtain ⟨hdr, -, h⟩ := Except.bind_eq_ok_iff.1 h
    split_ifs at h with hend
    · obtain rfl := congrArg Prod.snd (Except.ok.inj h)
      exact List.suffix_cons l ls
    · exact (ih h).trans (List.suffix_cons l ls)

theorem mapError_eq_ok {ε ε' α : Type} {f : ε → ε'} {x : Except ε α} {a : α}
    (h : x.mapError f = .ok a) : x = .ok a := by
  cases x with
  | ok b => exact congrArg _ (Except.ok.inj h)
  | error e => cases h

/-- The body of a request is a piece of what the client has sent, and not long. -/
theorem readBody_piece {method input body : Bytes} {n : ℤ}
    (h : readBody closed method n input = .ok body) : body <+: input ∧ body.length ≤ maxBody := by
  unfold readBody at h
  split_ifs at h with hpost hmax
  · have hread := mapError_eq_ok h
    unfold readExactly at hread
    split_ifs at hread with hlen
    obtain rfl := Except.ok.inj hread
    refine ⟨List.take_prefix _ _, (List.length_take_le _ _).trans ?_⟩
    omega
  · obtain rfl := Except.ok.inj h
    exact ⟨List.nil_prefix, Nat.zero_le _⟩

/-- A request, as it stands in what the client has sent. -/
theorem readRequest_piece {q : Request} (h : readRequest c.py lib closed input = .ok q) :
    ∃ first method version more, (lines input).head? = some first ∧
      c.py.split (c.py.strip (Utf8.lossy first)) = method :: q.target :: version :: more ∧
      q.method = c.py.upper method ∧ q.body <:+: input ∧ q.body.length ≤ maxBody := by
  unfold readRequest at h
  split at h
  · cases h
  · rename_i first rest hlines
    obtain ⟨line, hline, hq⟩ := Except.bind_eq_ok_iff.1 h
    obtain rfl := readLine_eq (mapError_eq_ok hline)
    split at hq
    · rename_i method target version more hsplit
      dsimp only at hq
      split_ifs at hq with hmethod
      obtain ⟨⟨n, rest'⟩, hheaders, hq⟩ := Except.bind_eq_ok_iff.1 hq
      obtain ⟨body, hbody, hq⟩ := Except.bind_eq_ok_iff.1 hq
      obtain rfl := Except.ok.inj hq
      obtain ⟨hpre, hlen⟩ := readBody_piece hbody
      refine ⟨_, method, version, more, by rw [hlines]; rfl, hsplit, rfl, ?_, hlen⟩
      have hsuffix : rest'.flatten <:+ input := by
        obtain ⟨before, hbefore⟩ := readHeaders_suffix (mapError_eq_ok hheaders)
        refine ⟨(line :: before).flatten, ?_⟩
        rw [← List.flatten_append, List.cons_append, hbefore, ← hlines, flatten_lines]
      exact hpre.isInfix.trans hsuffix.isInfix
    · cases hq

/-- What a client has sent asks for the deletion: a POST to the endpoint, with a body that is an
object and names the addresses, or confirms. -/
def Asks (lib : Library) (py : Str) (input : Bytes) (asked : Deletion.Request) : Prop :=
  ∃ first method target version more path query body fields,
    (lines input).head? = some first ∧
    py.split (py.strip (Utf8.lossy first)) = method :: target :: version :: more ∧
    py.upper method = ascii "POST" ∧ lib.urlparse target = .ok (path, query) ∧
    body <:+: input ∧ body ≠ [] ∧ body.length ≤ maxBody ∧
    lib.loads body = .ok (.object fields) ∧
    (path = ascii "/routes/delete" ∧ (∃ addrs withMaildir, addrs ≠ [] ∧
        Table.get fields (ascii "addrs") = some (.list addrs) ∧ asked = .delete addrs withMaildir) ∨
      path = ascii "/routes/wipe" ∧
        Table.get fields (ascii "confirm") = some (.text (ascii "WIPE_ALL")) ∧
        ∃ withMaildirs, asked = .wipe withMaildirs)

theorem postAsked_cases {path : Bytes} {loaded : Except LoadError Json} {asked : Deletion.Request}
    (h : postAsked path loaded = .ok asked) : ∃ fields, loaded = .ok (.object fields) ∧
    (path = ascii "/routes/delete" ∧ (∃ addrs withMaildir, addrs ≠ [] ∧
        Table.get fields (ascii "addrs") = some (.list addrs) ∧ asked = .delete addrs withMaildir) ∨
      path = ascii "/routes/wipe" ∧
        Table.get fields (ascii "confirm") = some (.text (ascii "WIPE_ALL")) ∧
        ∃ withMaildirs, asked = .wipe withMaildirs) := by
  have hfields {body : Json} {fields : List (Bytes × Value)} (h : body.fields = .ok fields) :
      body = .object fields := by
    cases body with
    | object fields' => exact congrArg _ (Except.ok.inj h)
    | other e => cases h
  unfold postAsked at h
  obtain ⟨body, hbody, h⟩ := Except.bind_eq_ok_iff.1 h
  have hloaded := mapError_eq_ok hbody
  split_ifs at h with hdelete hwipe
  · obtain ⟨fields, hobject, hasked⟩ := Except.bind_eq_ok_iff.1 h
    refine ⟨fields, hfields hobject ▸ hloaded, .inl ⟨hdelete, ?_⟩⟩
    unfold deleteAsked at hasked
    split at hasked
    · rename_i a as hget
      exact ⟨a :: as, _, List.cons_ne_nil a as, hget, (Except.ok.inj hasked).symm⟩
    · cases hasked
  · obtain ⟨fields, hobject, hasked⟩ := Except.bind_eq_ok_iff.1 h
    refine ⟨fields, hfields hobject ▸ hloaded, .inr ⟨hwipe, ?_⟩⟩
    unfold wipeAsked at hasked
    split_ifs at hasked with hconfirm
    exact ⟨hconfirm, _, (Except.ok.inj hasked).symm⟩

/-- The body of a request for the deletion of a route and of a protected one. -/
def sampleText : Bytes :=
  ascii "\x7b\"addrs\": [\"a@axiom\", \"v@axiom\"], \"with_maildir\": true\x7d"

def sampleWipeText : Bytes := ascii "\x7b\"confirm\": \"WIPE_ALL\", \"with_maildirs\": false\x7d"

def sampleLibrary : Library where
  int t := if t ≠ [] ∧ t.all Text.isDigit then some (Text.digits t : ℤ) else none
  urlparse t := .ok (t.takeWhile (· ≠ 63), (t.dropWhile (· ≠ 63)).tail)
  loads b :=
    if b = sampleText then
      .ok (.object [(ascii "addrs", .list [ascii "a@axiom", ascii "v@axiom"]),
        (ascii "with_maildir", .other true)])
    else if b = sampleWipeText then
      .ok (.object [(ascii "confirm", .text (ascii "WIPE_ALL")),
        (ascii "with_maildirs", .other false)])
    else .error (.malformed (ascii "Expecting value: line 1 column 1 (char 0)"))

def sampleConfig : Config := ⟨asciiStr, [ascii "env"], [ascii "axiom"]⟩

/-- A disk on which every file can be removed. -/
def sampleCleaning : Address → Cleaning := fun _ => ⟨fun _ => false, none⟩

/-- Whatever the bytes are that a client sends, and whether it closes its side or not: its
connection changes nothing, or they ask for a deletion, and this is what is done and answered.
Protected routes and their files stay. -/
theorem changes_asked (lib : Library) (c : Config) (how : Address → Cleaning)
    (persistError : Option String) (closed : Bool) (s : State) (input : Bytes)
    (hapart : MaildirsApart s.routes) :
    Kept s (handleHttpClient lib c how persistError closed s input).2 ∧
    ((handleHttpClient lib c how persistError closed s input).2 ≠ s →
      ∃ asked, Asks lib c.py input asked ∧
        handleHttpClient lib c how persistError closed s input =
          (some (respond (perform c how persistError s asked).1),
            (perform c how persistError s asked).2)) := by
  unfold handleHttpClient
  split
  · exact ⟨Kept.refl s, fun h => absurd rfl h⟩
  · rename_i q hread
    split
    · exact ⟨Kept.refl s, fun h => absurd rfl h⟩
    · rename_i asked hasked
      refine ⟨?_, fun _ => ⟨asked, ?_, rfl⟩⟩
      · obtain ⟨d, hd, hstate, -, -⟩ := perform_spec c how persistError s asked
        show Kept s (perform c how persistError s asked).2
        rw [hstate, hd]
        exact @kept_fold c asked.withMaildir how (asked.addrs s) (s, ⟨[], [], [], [], 0, 0, 0⟩)
          hapart
      · obtain ⟨first, method, version, more, hfirst, hsplit, hmethod, hpiece, hlen⟩ :=
          readRequest_piece hread
        unfold Request.asked at hasked
        split at hasked
        · cases hasked
        · rename_i path query hurl
          split_ifs at hasked with hpost hbody
          · obtain ⟨fields, hfields, hends⟩ := postAsked_cases hasked
            obtain rfl : [] = fields := by injection hfields with h; injection h
            rcases hends with ⟨-, addrs, -, -, hget, -⟩ | ⟨-, hget, -⟩ <;> cases hget
          · obtain ⟨fields, hfields, hends⟩ := postAsked_cases hasked
            exact ⟨first, method, q.target, version, more, path, query, q.body, fields, hfirst,
              hsplit, hmethod ▸ hpost, hurl, hpiece, hbody, hlen, hfields, hends⟩

/-- More header lines than one may name the length; what comes behind the body is not read. -/
theorem changes_asked_delete :
    let input := ascii "POST /routes/delete HTTP/1.1\r\ncontent-length: 7\r\n" ++
      ascii "Content-Length: 55\n\r\n" ++ sampleText ++ ascii "POST /routes/wipe HTTP/1.1\r\n"
    let result :=
      handleHttpClient sampleLibrary sampleConfig sampleCleaning none false sampleState input
    result.2.routes = [(ascii "v@axiom", [ascii "env", ascii "maildir", ascii "inbox"])] ∧
    Kept sampleState result.2 ∧
    ∃ asked, Asks sampleLibrary asciiStr input asked ∧
      result = (some (respond (perform sampleConfig sampleCleaning none sampleState asked).1),
        (perform sampleConfig sampleCleaning none sampleState asked).2) := by
  intro input result
  have hroutes : result.2.routes =
      [(ascii "v@axiom", [ascii "env", ascii "maildir", ascii "inbox"])] := by decide +kernel
  obtain ⟨hkept, hasked⟩ := changes_asked sampleLibrary sampleConfig sampleCleaning none false
    sampleState input (maildirsApart_of_mem (by decide))
  refine ⟨hroutes, hkept, hasked fun h => ?_⟩
  have hsame := hroutes.symm.trans (congrArg State.routes h)
  exact absurd hsame (by decide)

end Fatmama.HttpApi
