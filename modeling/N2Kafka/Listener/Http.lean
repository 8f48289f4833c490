import N2Kafka.Decoder.DecoderApi
import N2Kafka.Listener.Connection
import N2Kafka.Listener.HttpAuth

namespace N2Kafka.Listener.Http

open Lib.CString Util.Pairs Decoder.DecoderApi Listener.Connection Listener.HttpAuth

inductive MhdResult
  | yes | no
  deriving DecidableEq

inductive ZRet
  | ok | streamEnd | needDict | dataError | memError | bufError | other
  deriving DecidableEq

/-- One call of `inflate`: its status and what it wrote into the output buffer. -/
structure Inflate where
  zret : ZRet
  output : Bytes
  deriving DecidableEq

structure DecodeResult where
  rc : DecoderCallbackErr
  response : Option Bytes
  responseSize : ℕ
  deriving DecidableEq

structure HttpListener where
  decoder : N2kDecoder
  htpasswd : Option Bytes
  clientTlsCert : Bool

/-- What the libraries answer while one callback runs. `decode` gives the answers of the decoder
callback in the order it is called, `authTurns` is how far the scan of the database gets. -/
structure Env where
  clientAddr : Option CStr
  certificate : Bool
  basicAuth : Option (CStr × CStr)
  authTurns : ℕ
  values : List MhdValue
  allocated : Bool
  inflateInit : Bool
  newSessionRc : Int
  appended : Bool
  inflates : List Inflate
  decode : ℕ → DecodeResult
  queued : MhdResult

inductive ConCls
  | null | marker | info (id : ℕ)
  deriving DecidableEq

structure Block where
  info : ConnInfo
  session : Bool
  deriving DecidableEq

inductive CellUser
  | requestCompleted | handleHttpPostChunk | handlePostEnd
  deriving DecidableEq

inductive Event
  | validClientCertificate (ok : Bool)
  | authenticate (ok : Bool)
  | newSession (id : ℕ) (ok : Bool)
  | deleteSession (id : ℕ)
  | inflateInit (id : ℕ) (ok : Bool)
  | inflateEnd (id : ℕ)
  | use (fn : CellUser) (good : Bool)
  | decode (buffer : Bytes) (response session : Bool)
  | respond (code : ℕ) (body : Option Bytes)
  deriving DecidableEq

/-- A request: the cell libmicrohttpd keeps for it, the heap, and what has happened so far. `stuck`
once a callback did not come back. -/
structure Request where
  cell : ConCls
  heap : ℕ → Option Block
  next : ℕ
  trace : List Event
  stuck : Bool

def Request.fresh : Request := ⟨.null, fun _ ↦ none, 0, [], false⟩

def Request.log (r : Request) (es : List Event) : Request := { r with trace := r.trace ++ es }

def mhdHttpOk : ℕ := 200
def mhdHttpBadRequest : ℕ := 400
def mhdHttpUnauthorized : ℕ := 401
def mhdHttpForbidden : ℕ := 403
def mhdHttpNotFound : ℕ := 404
def mhdHttpMethodNotAllowed : ℕ := 405
def mhdHttpPayloadTooLarge : ℕ := 413
def mhdHttpInternalServerError : ℕ := 500
def mhdHttpServiceUnavailable : ℕ := 503

def decoderErr2http : DecoderCallbackErr → ℕ
  | .ok => mhdHttpOk
  | .bufferFull => mhdHttpServiceUnavailable
  | .invalidRequest | .unknownTopic | .unknownPartition => mhdHttpBadRequest
  | .msgTooLarge => mhdHttpPayloadTooLarge
  | .httpMethodNotAllowed => mhdHttpMethodNotAllowed
  | .resourceNotFound => mhdHttpNotFound
  | .memoryError | .genericError => mhdHttpInternalServerError

def createConnectionInfo (l : HttpListener) (e : Env) (method url client : CStr) : Option ConnInfo :=
  if e.allocated then
    some (decoderOpts e.values method url (some client)
      { zeroed with decoderSess := l.decoder.sessionSize.getD 0 ≠ 0 })
  else none

def openConnection (l : HttpListener) (e : Env) (method url client : CStr) (r : Request) :
    Request × MhdResult :=
  match createConnectionInfo l e method url client with
  | none => (r.log [.respond mhdHttpInternalServerError
      (some (ascii "Can't allocate conection context (out of memory?)"))], e.queued)
  | some ci =>
    let id := r.next
    let r := if ci.zlibEnable then r.log [.inflateInit id e.inflateInit] else r
    if l.decoder.newSession then
      if e.newSessionRc ≠ 0 then
        -- free_con_info releases the structure only
        ({ r.log [.newSession id false] with cell := .null, next := id + 1 }, .no)
      else
        ({ r.log [.newSession id true] with
            cell := .info id, heap := Function.update r.heap id (some ⟨ci, true⟩), next := id + 1 },
          .yes)
    else
      ({ r with
          cell := .info id, heap := Function.update r.heap id (some ⟨ci, false⟩), next := id + 1 },
        .yes)

def checkBasicAuth (l : HttpListener) (e : Env) (r : Request)
    (accepted : Request → Request × MhdResult) : Request × MhdResult :=
  match l.htpasswd with
  | none => accepted r
  | some htpasswd =>
    match e.basicAuth with
    | none => (r.log [.respond mhdHttpUnauthorized none], e.queued)
    | some (user, password) =>
      match httpAuthenticate e.authTurns user password htpasswd with
      | some (.returned true) => accepted (r.log [.authenticate true])
      | some (.returned false) =>
        (r.log [.authenticate false, .respond mhdHttpUnauthorized none], e.queued)
      | _ => ({ r with stuck := true }, .no)

def handleHttpPostInit (l : HttpListener) (e : Env) (url method : CStr) (r : Request) :
    Request × MhdResult :=
  match e.clientAddr with
  | none => (r, .no)
  | some client =>
    if l.clientTlsCert ∧ ¬ e.certificate then
      (r.log [.validClientCertificate false, .respond mhdHttpForbidden none], .yes)
    else
      let r := if l.clientTlsCert then r.log [.validClientCertificate true] else r
      checkBasicAuth l e r fun r ↦ openConnection l e method url client r

def zlibChunk : ℕ := 512 * 1024

def zlibDeflateError2str : ZRet → Bytes
  | .needDict => ascii "\x7b\"error\":\"libz deflate error: a dictionary is need\"\x7d"
  | .dataError =>
    ascii "\x7b\"error\":\"deflated input is not conforming to the zlib format\"\x7d"
  | .memError => ascii "\x7b\"error\":\"Out of memory\"\x7d"
  | .bufError => ascii "\x7b\"error\":\"Is not possible to progress in input stream\"\x7d"
  | .ok | .streamEnd | .other => ascii "\x7b\"error\":\"Unknown error\"\x7d"

def zlibFailure (zret : ZRet) (response : DecodeResult) : DecodeResult :=
  { response with
    rc := if zret = .needDict ∨ zret = .dataError then .invalidRequest else .genericError
    response := some (zlibDeflateError2str zret) }

/-- The blocks passed to the decoder and the result of the last step. An `inflate` that has nothing
left to do answers `Z_BUF_ERROR`. -/
def compressedLoop (e : Env) : List Inflate → ℕ → DecodeResult → List Bytes × DecodeResult
  | [], _, last => ([], zlibFailure .bufError last)
  | z :: zs, calls, last =>
    if z.zret ≠ .ok ∧ z.zret ≠ .streamEnd then ([], zlibFailure z.zret last)
    else if z.output.length = 0 then ([], last)
    else
      let result := e.decode calls
      if result.rc ≠ .ok ∨ z.output.length ≠ zlibChunk then ([z.output], result)
      else
        let (blocks, final) := compressedLoop e zs (calls + 1) result
        (z.output :: blocks, final)

def compressedCallback (e : Env) : List Bytes × DecodeResult :=
  compressedLoop e e.inflates 0 ⟨.ok, none, 0⟩

def connInfoHasQueueResponse (ci : ConnInfo) : Bool := ci.httpError.code ≠ 0

def connInfoQueueResponse (ci : ConnInfo) (result : DecodeResult) : ConnInfo :=
  { ci with httpError := ⟨decoderErr2http result.rc, result.response, result.responseSize⟩ }

def Request.block (r : Request) : Option Block :=
  match r.cell with
  | .info id => r.heap id
  | .null | .marker => none

/-- A live `conn_info`, with an open session if the decoder has sessions. -/
def Request.cellGood (l : HttpListener) (r : Request) : Bool :=
  match r.block with
  | some b => !l.decoder.newSession || b.session
  | none => false

def Request.setInfo (r : Request) (ci : ConnInfo) : Request :=
  match r.cell with
  | .info id => { r with heap := Function.update r.heap id ((r.heap id).map ({ · with info := ci })) }
  | .null | .marker => r

theorem Request.block_log {r : Request} {id : ℕ} {b : Block} (hcell : r.cell = .info id)
    (hheap : r.heap id = some b) (es : List Event) : (r.log es).block = some b := by
  simp [Request.block, Request.log, hcell, hheap]

theorem Request.log_log (r : Request) (es es' : List Event) : (r.log es).log es' = r.log (es ++ es') := by
  simp [Request.log]

def postChunk (l : HttpListener) (e : Env) (upload : Bytes) (b : Block) :
    ConnInfo × List Event × DecodeResult :=
  if !l.decoder.newSession then
    ({ b.info with str := if e.appended then b.info.str ++ upload else b.info.str }, [],
      ⟨if e.appended then .ok else .memoryError, none, 0⟩)
  else if b.info.zlibEnable then
    let (blocks, result) := compressedCallback e
    (b.info, blocks.map (.decode · true b.info.decoderSess), result)
  else (b.info, [.decode upload true b.info.decoderSess], e.decode 0)

def handleHttpPostChunk (l : HttpListener) (e : Env) (upload : Bytes) (r : Request) :
    Request × MhdResult :=
  let r := r.log [.use .handleHttpPostChunk (r.cellGood l)]
  match r.block with
  | none => ({ r with stuck := true }, .no)
  | some b =>
    if connInfoHasQueueResponse b.info then (r, .yes)
    else
      let (ci, events, result) := postChunk l e upload b
      let ci := if result.rc ≠ .ok then connInfoQueueResponse ci result else ci
      ((r.log events).setInfo ci, .yes)

def handlePostEnd (l : HttpListener) (e : Env) (r : Request) : Request × MhdResult :=
  let r := r.log [.use .handlePostEnd (r.cellGood l)]
  match r.block with
  | none => ({ r with stuck := true }, .no)
  | some b =>
    if b.info.httpError.code ≠ 0 then
      (r.log [.respond b.info.httpError.code b.info.httpError.str], e.queued)
    else
      let r := if !l.decoder.newSession then r.log [.decode b.info.str false false] else r
      (r.log [.respond mhdHttpOk none], .yes)

def handlePost (l : HttpListener) (e : Env) (url method : CStr) (upload : Bytes) (r : Request) :
    Request × MhdResult :=
  if r.cell = .null then handleHttpPostInit l e url method r
  else if upload.length > 0 then handleHttpPostChunk l e upload r
  else handlePostEnd l e r

def handleGet (e : Env) (upload : Bytes) (r : Request) : Request × MhdResult :=
  if r.cell = .null then ({ r with cell := .marker }, .yes)
  else
    let r := { r with cell := .null }
    let result := e.decode 0
    let r := r.log [.decode upload true false]
    if result.rc = .httpMethodNotAllowed then
      (r.log [.respond mhdHttpMethodNotAllowed none], e.queued)
    else (r.log [.respond (decoderErr2http result.rc) result.response], e.queued)

def handleRequest (l : HttpListener) (e : Env) (url method : CStr) (upload : Bytes) (r : Request) :
    Request × MhdResult :=
  if strcmp method (lit "POST") = 0 then handlePost l e url method upload r
  else if strcmp method (lit "GET") = 0 then handleGet e upload r
  else (r.log [.respond mhdHttpMethodNotAllowed none], e.queued)

def requestCompleted (l : HttpListener) (r : Request) : Request :=
  match r.cell with
  | .null => r
  | .marker => { r.log [.use .requestCompleted (r.cellGood l)] with stuck := true }
  | .info id =>
    let good := r.cellGood l
    let r := r.log [.use .requestCompleted good]
    match r.heap id with
    | none => { r with stuck := true }
    | some b =>
      let r := if l.decoder.deleteSession then r.log [.deleteSession id] else r
      let r := if b.info.zlibEnable then r.log [.inflateEnd id] else r
      { r with cell := .null, heap := Function.update r.heap id none }

structure Call where
  env : Env
  upload : Bytes

/-- Successive handler calls of one request; a callback that did not come back is the last. -/
def calls (l : HttpListener) (url method : CStr) (cs : List Call) (r : Request) : Request :=
  cs.foldl (fun r c ↦ if r.stuck then r else (handleRequest l c.env url method c.upload r).1) r

def request (l : HttpListener) (url method : CStr) (cs : List Call) : Request :=
  let r := calls l url method cs .fresh
  if r.stuck then r else requestCompleted l r

end N2Kafka.Listener.Http
