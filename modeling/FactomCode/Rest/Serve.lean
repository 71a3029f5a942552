import Mathlib.Data.List.Basic

set_option autoImplicit false

/-! # The REST handler of NotaryChain

`serveRESTfulHTTP` answers an HTTP request in four stages: `parse` splits it into a path, a
method, the negotiated format and the form; the method switch runs `find` for `GET` and `post`
for a `POST` to the version root; the answer is marshalled in the negotiated format; and a
deferred closure writes the Content-Type, the code of the error in `err` if there is one, and
the body.

`parse`, `find`, `createError` with the error kinds and their HTTP codes, the `ncdata` block and
entry types with `AddEntry`, and the JSON and XML codecs are not in the repository: they are the
fields of a `RestLib`, and a `Request` is what `parse` returned. `err` is one variable that every
path through the switch assigns, `find` and `post` included, and the final
`data, err = marshal(resource, accept)` assigns it once more: the error of `parse` is never read,
and those of `find` and `post` are lost whenever the resource marshals. -/

namespace FactomCode

namespace Rest

/-- The error kinds `part_000` passes to `createError`. The kinds `find` uses are defined with it,
    outside the repository (`other`). -/
inductive ErrorKind
  | badMethod
  | jsonUnmarshal
  | xmlUnmarshal
  | unsupportedUnmarshal
  | internal
  | jsonMarshal
  | xmlMarshal
  | unsupportedMarshal
  | other (name : String)
  deriving DecidableEq, Repr

/-- A `*restError` as `createError(kind, message)` makes it. -/
structure RestError where
  kind : ErrorKind
  message : String
  deriving DecidableEq, Repr

/-- `url.Values`: each key with its values. -/
abbrev Form := List (String × List String)

/-- `form.Get(key)`: the first value of `key`, or `""`. -/
def Form.get (form : Form) (key : String) : String :=
  match form.lookup key with
  | some (v :: _) => v
  | _ => ""

/-- What `parse(r)` returned for a request: the path segments, the method, the negotiated format,
    the form, and the error. -/
structure Request where
  path : List String
  method : String
  accept : String
  form : Form
  err : Option RestError

/-- What the handler writes: the Content-Type, the code passed to `WriteHeader` (`none` when it
    is not called and net/http sends 200), and the body. -/
structure Response where
  contentType : Option String
  status : Option Nat
  body : String
  deriving DecidableEq, Repr

/-- The code `part_000` calls that the repository does not hold. `Val` is Go's `interface{}` as
    the handler passes it on: nil, a `*restError`, a posted `*ncdata.PlainEntry`, or what `find`
    returned. -/
structure RestLib (Val Entry Block : Type) where
  nil : Val
  ofError : RestError → Val
  ofEntry : Entry → Val
  /-- `find(path)`. -/
  find : List String → Val × Option RestError
  /-- `createError(kind, …).HTTPCode`. -/
  httpCode : ErrorKind → Nat
  /-- `json.MarshalIndent(v, "", "  ")`, `json.Marshal(v)` and `xml.Marshal(v)`: the bytes, or the
      text of the error. -/
  jsonMarshalIndent : Val → Except String String
  jsonMarshal : Val → Except String String
  xmlMarshal : Val → Except String String
  /-- `json.Unmarshal` and `xml.Unmarshal` of the posted data into a new `PlainEntry`. -/
  jsonUnmarshal : String → Except String Entry
  xmlUnmarshal : String → Except String Entry
  /-- `newEntry.TimeStamp = now`. -/
  setTimeStamp : Entry → Int → Entry
  /-- `block.AddEntry(entry)`: the block after the call, and the error it returned. -/
  addEntry : Block → Entry → Block × Option String

variable {Val Entry Block : Type} (lib : RestLib Val Entry Block)

namespace RestLib

/-! ## Marshalling -/

/-- One encoder's case of `marshal`: the encoding of `v`; when that fails, the encoding of the
    error of kind `kind` it makes instead, with that error; `none` where that fails too and
    `marshal` panics. -/
def marshalWith (enc : Val → Except String String) (kind : ErrorKind) (v : Val) :
    Option (String × Option RestError) :=
  match enc v with
  | .ok data => some (data, none)
  | .error e =>
    let r : RestError := ⟨kind, e⟩
    match enc (lib.ofError r) with
    | .ok data => some (data, some r)
    | .error _ => none

end RestLib

/-- The page the `html` format wraps the JSON in, `tree(data)` run on load. -/
def htmlPage (data : String) : String :=
  "<script>\n\t\t\tfunction tree(data) \x7b\n\t\t\t    if (typeof(data) == \x27object\x27) \x7b\n" ++
  "\t\t\t        document.write(\x27<ul>\x27);\n\t\t\t        for (var i in data) \x7b\n" ++
  "\t\t\t            document.write(\x27<li>\x27 + i);\n\t\t\t            tree(data[i]);\n" ++
  "\t\t\t        \x7d\n\t\t\t        document.write(\x27</ul>\x27);\n\t\t\t    \x7d else \x7b\n" ++
  "\t\t\t        document.write(\x27 => \x27 + data);\n\t\t\t    \x7d\n\t\t\t\x7d</script>" ++
  "<body onload=\x27tree(" ++ data ++ ")\x27></body>"

namespace RestLib

/-- `marshal(resource, accept)`: the bytes written for `v` in the format `accept`, and the error
    it made, if any; `none` where it panics. -/
def marshal (v : Val) (accept : String) : Option (String × Option RestError) :=
  match accept with
  | "text" => lib.marshalWith lib.jsonMarshalIndent .jsonMarshal v
  | "json" => lib.marshalWith lib.jsonMarshal .jsonMarshal v
  | "xml" => lib.marshalWith lib.xmlMarshal .xmlMarshal v
  | "html" =>
    (lib.marshalWith lib.jsonMarshal .jsonMarshal v).map fun (data, r) =>
      if r.isSome then ("", r) else (htmlPage data, none)
  | _ =>
    let r : RestError :=
      ⟨.unsupportedMarshal, "\"" ++ accept ++ "\" is an unsupported marshalling format"⟩
    match lib.jsonMarshal (lib.ofError r) with
    | .ok data => some (data, some r)
    | .error _ => none

/-! ## Posting an entry -/

/-- The decoding half of `post`: the form's `data` decoded as a new `PlainEntry` in the form's
    `format`. -/
def decodeEntry (form : Form) : Except RestError Entry :=
  let format := Form.get form "format"
  let data := Form.get form "data"
  match format with
  | "" | "json" => (lib.jsonUnmarshal data).mapError (⟨.jsonUnmarshal, ·⟩)
  | "xml" => (lib.xmlUnmarshal data).mapError (⟨.xmlUnmarshal, ·⟩)
  | _ => .error ⟨.unsupportedUnmarshal, "The format \"" ++ format ++ "\" is not supported"⟩

/-- `post(context, block, form)` at time `now`: the resource and the error it returns, and the
    block after it. The block is `blocks[len(blocks)-1]`, a `*ncdata.Block`, so the type check
    passes; `new(ncdata.PlainEntry)` is never nil, so that check never fires; `context` is not
    read. -/
def post (block : Block) (form : Form) (now : Int) : Val × Option RestError × Block :=
  match lib.decodeEntry form with
  | .error e => (lib.nil, some e, block)
  | .ok entry =>
    let entry := lib.setTimeStamp entry now
    match lib.addEntry block entry with
    | (block, some msg) =>
      (lib.nil, some ⟨.internal, "Error while adding Entity to Block: " ++ msg⟩, block)
    | (block, none) => (lib.ofEntry entry, none, block)

end RestLib

/-! ## The handler -/

/-- The Content-Type the deferred closure sets for the negotiated format. -/
def contentTypeOf (accept : String) : Option String :=
  match accept with
  | "text" => some "text/plain; charset=utf-8"
  | "json" => some "application/json; charset=utf-8"
  | "xml" => some "application/xml; charset=utf-8"
  | "html" => some "text/html; charset=utf-8"
  | _ => none

namespace RestLib

/-- The method switch and the final marshalling: the bytes in `data` and the error in `err` when
    the deferred closure runs, with the blocks. `err` starts as the error of `parse`, and every
    path assigns it again. -/
def handle (blocks : List Block) (now : Int) (req : Request) :
    Option (String × Option RestError × List Block) :=
  match req.method with
  | "GET" =>
    -- `resource, err = find(path)`, then `data, err = marshal(resource, accept)`
    (lib.marshal (lib.find req.path).1 req.accept).map fun (data, err) => (data, err, blocks)
  | "POST" =>
    if req.path.length ≠ 1 then
      some ("", some ⟨.badMethod, "POST can only be used in the root context: /v1"⟩, blocks)
    else do
      let block ← blocks.getLast?
      -- `resource, err = post(…)`, then `data, err = marshal(resource, accept)`
      let (resource, _, block) := lib.post block req.form now
      let (data, err) ← lib.marshal resource req.accept
      return (data, err, blocks.dropLast ++ [block])
  | method =>
    some ("", some ⟨.badMethod, "The HTTP " ++ method ++ " method is not supported"⟩, blocks)

/-- The deferred closure: with an error in `err`, that error is marshalled in place of `data` and
    its code written (the code of the marshalling's own error, if it made one); then the body and
    a blank line. -/
def respond (accept data : String) : Option RestError → Option Response
  | none => some ⟨contentTypeOf accept, none, data ++ "\n\n"⟩
  | some e => do
    let (data, r) ← lib.marshal (lib.ofError e) accept
    let e := r.getD e
    return ⟨contentTypeOf accept, some (lib.httpCode e.kind), data ++ "\n\n"⟩

/-- `serveRESTfulHTTP(w, r)` at time `now` on the blocks: the response and the blocks after it;
    `none` where it panics. -/
def serveRESTfulHTTP (blocks : List Block) (now : Int) (req : Request) :
    Option (Response × List Block) := do
  let (data, err, blocks) ← lib.handle blocks now req
  let resp ← lib.respond req.accept data err
  return (resp, blocks)

/-! ## Which errors reach the response -/

/-- The handler never reads the error `parse` returned. -/
theorem serveRESTfulHTTP_err (blocks : List Block) (now : Int) (req : Request)
    (e : Option RestError) :
    lib.serveRESTfulHTTP blocks now { req with err := e } = lib.serveRESTfulHTTP blocks now req :=
  rfl

theorem respond_none (accept data : String) :
    lib.respond accept data none = some ⟨contentTypeOf accept, none, data ++ "\n\n"⟩ := rfl

/-- A `GET` answers with the marshalled resource and net/http's 200 whenever the resource `find`
    returned marshals, whatever error `find` returned with it. -/
theorem serveRESTfulHTTP_get {blocks : List Block} {now : Int} {req : Request} {data : String}
    (hm : req.method = "GET") (hdata : lib.marshal (lib.find req.path).1 req.accept = some (data, none)) :
    lib.serveRESTfulHTTP blocks now req =
      some (⟨contentTypeOf req.accept, none, data ++ "\n\n"⟩, blocks) := by
  simp only [serveRESTfulHTTP, handle, hm, hdata, Option.map_some', Option.bind_eq_bind,
    Option.some_bind, respond_none, Option.pure_def]

/-- A `POST` to the version root answers with the marshalled resource and net/http's 200
    whenever the resource `post` returned marshals, whatever error `post` returned with it; the
    last block is the one `post` left. -/
theorem serveRESTfulHTTP_post {blocks : List Block} {block : Block} {now : Int} {req : Request}
    {data : String} (hm : req.method = "POST") (hpath : req.path.length = 1)
    (hlast : blocks.getLast? = some block)
    (hdata : lib.marshal (lib.post block req.form now).1 req.accept = some (data, none)) :
    lib.serveRESTfulHTTP blocks now req =
      some (⟨contentTypeOf req.accept, none, data ++ "\n\n"⟩,
        blocks.dropLast ++ [(lib.post block req.form now).2.2]) := by
  simp only [serveRESTfulHTTP, handle, hm, hpath, hlast, hdata, ne_eq, not_true_eq_false,
    reduceIte, Option.bind_eq_bind, Option.some_bind, respond_none, Option.pure_def]

/-- The error of the method switch is written with its code, when it marshals. -/
theorem serveRESTfulHTTP_method_error {blocks : List Block} {now : Int} {req : Request}
    {e : RestError} {data : String}
    (he : (req.method = "POST" ∧ req.path.length ≠ 1 ∧
        e = ⟨.badMethod, "POST can only be used in the root context: /v1"⟩) ∨
      (req.method ≠ "GET" ∧ req.method ≠ "POST" ∧
        e = ⟨.badMethod, "The HTTP " ++ req.method ++ " method is not supported"⟩))
    (hdata : lib.marshal (lib.ofError e) req.accept = some (data, none)) :
    lib.serveRESTfulHTTP blocks now req =
      some (⟨contentTypeOf req.accept, some (lib.httpCode .badMethod), data ++ "\n\n"⟩, blocks) := by
  rcases he with ⟨hm, hpath, rfl⟩ | ⟨hget, hpost, rfl⟩
  · simp only [serveRESTfulHTTP, handle, hm, hpath, ne_eq, not_false_eq_true, reduceIte,
      Option.bind_eq_bind, Option.some_bind, respond, hdata, Option.getD_none, Option.pure_def]
  · unfold serveRESTfulHTTP handle
    split
    · exact absurd ‹_› hget
    · exact absurd ‹_› hpost
    · simp only [Option.bind_eq_bind, Option.some_bind, respond, hdata, Option.getD_none,
        Option.pure_def]

theorem post_block_of_error {block : Block} {form : Form} {e : RestError} (now : Int)
    (hd : lib.decodeEntry form = .error e) : (lib.post block form now).2.2 = block := by
  rw [post, hd]

theorem handle_blocks {blocks blocks' : List Block} {now : Int} {req : Request} {data : String}
    {err : Option RestError} (h : lib.handle blocks now req = some (data, err, blocks')) :
    blocks' = blocks ∨
      req.method = "POST" ∧ req.path.length = 1 ∧ ∃ entry, lib.decodeEntry req.form = .ok entry := by
  unfold handle at h
  split at h
  · obtain ⟨_, _, ⟨⟩⟩ := Option.map_eq_some'.1 h
    exact .inl rfl
  · rename_i hm
    split at h
    · cases h; exact .inl rfl
    · rename_i hpath
      obtain ⟨block, hlast, h⟩ := Option.bind_eq_some.1 h
      generalize hp : lib.post block req.form now = r at h
      obtain ⟨_, _, block'⟩ := r
      obtain ⟨_, _, ⟨⟩⟩ := Option.bind_eq_some.1 h
      cases hd : lib.decodeEntry req.form with
      | error e =>
        have hb : block' = block := by
          have := @post_block_of_error _ _ _ lib block req.form e now hd
          rwa [hp] at this
        exact .inl (by rw [hb, List.dropLast_append_getLast? _ hlast])
      | ok entry => exact .inr ⟨hm, not_not.1 hpath, entry, rfl⟩
  · cases h; exact .inl rfl

/-- Only a `POST` to the version root whose entry decodes changes the blocks. -/
theorem serveRESTfulHTTP_blocks {blocks blocks' : List Block} {now : Int} {req : Request}
    {resp : Response} (h : lib.serveRESTfulHTTP blocks now req = some (resp, blocks')) :
    blocks' = blocks ∨
      req.method = "POST" ∧ req.path.length = 1 ∧ ∃ entry, lib.decodeEntry req.form = .ok entry := by
  obtain ⟨⟨data, err, blocks''⟩, hh, h⟩ := Option.bind_eq_some.1 h
  obtain ⟨_, _, ⟨⟩⟩ := Option.bind_eq_some.1 h
  exact lib.handle_blocks hh

/-- Which errors `serveRESTfulHTTP` reports. The error of `parse` is never read. A `GET`, and a
    `POST` to the version root, answer with the marshalled resource and net/http's 200 whenever
    that resource marshals, whatever error `find` or `post` returned; the root `POST` keeps the
    block `post` left. Only the method switch's error is written with its code. And only a `POST`
    to the root whose entry decodes changes the blocks, whatever `parse` returned. -/
theorem serveRESTfulHTTP_reports_only_method_errors :
    (∀ blocks now (req : Request) e,
      lib.serveRESTfulHTTP blocks now { req with err := e } = lib.serveRESTfulHTTP blocks now req) ∧
    (∀ blocks now (req : Request) data, req.method = "GET" →
      lib.marshal (lib.find req.path).1 req.accept = some (data, none) →
      lib.serveRESTfulHTTP blocks now req =
        some (⟨contentTypeOf req.accept, none, data ++ "\n\n"⟩, blocks)) ∧
    (∀ blocks block now (req : Request) data, req.method = "POST" → req.path.length = 1 →
      blocks.getLast? = some block →
      lib.marshal (lib.post block req.form now).1 req.accept = some (data, none) →
      lib.serveRESTfulHTTP blocks now req =
        some (⟨contentTypeOf req.accept, none, data ++ "\n\n"⟩,
          blocks.dropLast ++ [(lib.post block req.form now).2.2])) ∧
    (∀ blocks now (req : Request) (e : RestError) data,
      (req.method = "POST" ∧ req.path.length ≠ 1 ∧
          e = ⟨.badMethod, "POST can only be used in the root context: /v1"⟩) ∨
        (req.method ≠ "GET" ∧ req.method ≠ "POST" ∧
          e = ⟨.badMethod, "The HTTP " ++ req.method ++ " method is not supported"⟩) →
      lib.marshal (lib.ofError e) req.accept = some (data, none) →
      lib.serveRESTfulHTTP blocks now req =
        some (⟨contentTypeOf req.accept, some (lib.httpCode .badMethod), data ++ "\n\n"⟩,
          blocks)) ∧
    (∀ blocks blocks' now (req : Request) resp,
      lib.serveRESTfulHTTP blocks now req = some (resp, blocks') →
      blocks' = blocks ∨
        req.method = "POST" ∧ req.path.length = 1 ∧ ∃ entry, lib.decodeEntry req.form = .ok entry) :=
  ⟨lib.serveRESTfulHTTP_err, fun _ _ _ _ => lib.serveRESTfulHTTP_get,
    fun _ _ _ _ _ => lib.serveRESTfulHTTP_post, fun _ _ _ _ _ => lib.serveRESTfulHTTP_method_error,
    fun _ _ _ _ _ => lib.serveRESTfulHTTP_blocks⟩

end RestLib

/-! ## A small instance -/

/-- The values of a small instance of the handler: nil, a text, an error. -/
inductive Value
  | nil
  | text (s : String)
  | error (e : RestError)

/-- The encoding of a value, the same in every format. -/
def Value.render : Value → Except String String
  | .nil => .ok "null"
  | .text s => .ok ("\"" ++ s ++ "\"")
  | .error e => .ok ("error: " ++ e.message)

/-- An instance whose blocks are lists of entries, `find` knowing only the version root and
    `createError` giving the spec's codes: 405 for a bad method, 400 for an entry that does not
    decode, 404 for the kinds of `find`, 500 otherwise. -/
def plainRest : RestLib Value String (List String) where
  nil := .nil
  ofError := .error
  ofEntry := .text
  find path :=
    if path = ["v1"] then (.text "v1", none) else (.nil, some ⟨.other "errorNotFound", "not found"⟩)
  httpCode
    | .badMethod => 405
    | .jsonUnmarshal | .xmlUnmarshal | .unsupportedUnmarshal => 400
    | .other _ => 404
    | _ => 500
  jsonMarshalIndent := Value.render
  jsonMarshal := Value.render
  xmlMarshal := Value.render
  jsonUnmarshal data := if data = "" then .error "unexpected end of JSON input" else .ok data
  xmlUnmarshal data := .ok data
  setTimeStamp entry _ := entry
  addEntry block entry := (block ++ [entry], none)

/-- `GET /v1/7` in JSON: `find` does not know the path. -/
def unknownPathRequest : Request := ⟨["v1", "7"], "GET", "json", [], none⟩

/-- `POST /v1` in JSON with the entry `e1`, of a request `parse` failed on. -/
def unparsedPostRequest : Request :=
  ⟨["v1"], "POST", "json", [("data", ["e1"])], some ⟨.other "errorParse", "bad request"⟩⟩

/-- `find`'s 404 is answered with 200 and `null`; a `POST` that `parse` failed on adds its entry
    and is answered with 200. -/
theorem serveRESTfulHTTP_reports_only_method_errors_unknownPath :
    (plainRest.find unknownPathRequest.path).2 = some ⟨.other "errorNotFound", "not found"⟩ ∧
      plainRest.serveRESTfulHTTP [[]] 0 unknownPathRequest =
        some (⟨some "application/json; charset=utf-8", none, "null\n\n"⟩, [[]]) ∧
      plainRest.serveRESTfulHTTP [[]] 0 unparsedPostRequest =
        some (⟨some "application/json; charset=utf-8", none, "\"e1\"\n\n"⟩, [["e1"]]) :=
  have h := plainRest.serveRESTfulHTTP_reports_only_method_errors
  ⟨rfl, h.2.1 [[]] 0 unknownPathRequest "null" rfl (by decide),
    h.2.2.1 [[]] [] 0 unparsedPostRequest "\"e1\"" rfl rfl rfl (by decide)⟩

end Rest

end FactomCode
