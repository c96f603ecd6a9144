import ZoidbergChain.Protocol
import ZoidbergChain.Python.Bytes
import ZoidbergChain.CanonicalV3.RoundTrip

/-!
# The binary grammar of the review sessions

`verification/review717r/wire.py`: the schemas, the encoder and the decoder of their objects,
the frames of events, and the body of a batch.

- `Ty` is a type of a field, with the schemas it refers to written out.
- `encodeType` and `read` follow a type. `unpack` reads without range checks on integers and
  relies on the final re-encoding.

Hex texts stand for raw bytes. SHA-256 is a function of the bytes.
-/

namespace ZoidbergChain

open Python

namespace PagedReview

namespace Wire

/-! ## Schemas -/

/-- `CAP`. -/
def cap : Nat := 262144

/-- `EVENT_CAP`. -/
def eventCap : Nat := 8192

/-- `MAX_EVENTS`. -/
def maxEvents : Nat := 256

/-- The keys of `SCHEMAS`. -/
inductive Schema
  | «open»
  | start
  | vote
  | admission
  | close
  | participation
  | epoch
  | policy
  | data
  | reference
  | timeSample
  | clock
  | header
  | message
  | pv
  | proof
  | checkpoint
  | media
  | tally
  | mediaAnchor
  | inventory
  deriving DecidableEq

/-- The names of `SCHEMAS`, in order. -/
def schemas : List (Schema × String) :=
  [(.open, "OPEN"), (.start, "START"), (.vote, "VOTE"), (.admission, "ADMISSION"),
    (.close, "CLOSE"), (.participation, "PARTICIPATION"), (.epoch, "EPOCH"), (.policy, "POLICY"),
    (.data, "DATA"), (.reference, "REFERENCE"), (.timeSample, "TIME_SAMPLE"), (.clock, "CLOCK"),
    (.header, "HEADER"), (.message, "MESSAGE"), (.pv, "PV"), (.proof, "PROOF"),
    (.checkpoint, "CHECKPOINT"), (.media, "MEDIA"), (.tally, "TALLY"),
    (.mediaAnchor, "MEDIA_ANCHOR"), (.inventory, "INVENTORY")]

/-- The name of a schema. -/
def Schema.name (s : Schema) : String := ((schemas.lookup s).getD "")

/-- `KINDS`. -/
def Schema.kind (s : Schema) : Nat := (schemas.map Prod.fst).idxOf s + 1

/-- The schema of a kind. -/
def ofKind? (n : Nat) : Option Schema := (schemas.map Prod.fst).find? fun s => s.kind = n

/-- The keys of `ENUM`. -/
inductive Enum
  | v1
  | zero64
  | zero8
  | dimension
  | choice
  | outcome
  | status
  | result
  | unsupported
  | sourcekind
  | validator
  | step
  | bit
  | round
  | vr
  | u8
  | u16
  | u32
  | u64
  deriving DecidableEq

/-- `ENUM`, with the names: width, least and greatest value. -/
def Enum.row : Enum → String × Nat × Int × Int
  | .v1 => ("v1", 2, 1, 1)
  | .zero64 => ("zero64", 8, 0, 0)
  | .zero8 => ("zero8", 1, 0, 0)
  | .dimension => ("dimension", 1, 0, 1)
  | .choice => ("choice", 1, 0, 2)
  | .outcome => ("outcome", 1, 0, 2)
  | .status => ("status", 1, 0, 2)
  | .result => ("result", 1, 0, 9)
  | .unsupported => ("unsupported", 1, 255, 255)
  | .sourcekind => ("sourcekind", 1, 0, 6)
  | .validator => ("validator", 1, 0, 3)
  | .step => ("step", 1, 0, 2)
  | .bit => ("bit", 1, 0, 1)
  | .round => ("round", 4, 0, 2147483647)
  | .vr => ("vr", 4, -1, 2147483647)
  | .u8 => ("u8", 1, 0, 255)
  | .u16 => ("u16", 2, 0, 65535)
  | .u32 => ("u32", 4, 0, 4294967295)
  | .u64 => ("u64", 8, 0, 9007199254740991)

def Enum.name (e : Enum) : String := e.row.1

def Enum.width (e : Enum) : Nat := e.row.2.1

def Enum.low (e : Enum) : Int := e.row.2.2.1

def Enum.high (e : Enum) : Int := e.row.2.2.2

/-- The type of a field: raw bytes of a width, an array with its bounds, a schema with its
fields, a network, a chunk, or an integer. -/
inductive Ty
  | raw (width : Nat)
  | array (child : Ty) (low high : Nat)
  | schema (name : Schema) (fields : List (String × Ty))
  | nid
  | chunk
  | enum (e : Enum)

/-- `CTX`. -/
def ctx : List (String × Ty) :=
  [("network", .nid), ("genesis", .raw 32), ("protocol", .enum .v1), ("instance", .raw 32),
    ("validators", .raw 32), ("membership", .enum .zero64), ("policy", .raw 32)]

/-- `TALLY`. -/
def tallyFields : List (String × Ty) :=
  [("positive", .enum .u64), ("negative", .enum .u64), ("unsure", .enum .u64),
    ("established", .enum .u64), ("total", .enum .u64), ("decisive", .enum .u64),
    ("numerator", .enum .u64), ("denominator", .enum .u64), ("outcome", .enum .outcome)]

def openFields : List (String × Ty) :=
  ctx ++ ([("submission", .raw 16), ("original", .raw 32), ("creator", .raw 20), ("key", .raw 33),
    ("media_height", .enum .u64), ("media_hash", .raw 32), ("base_height", .enum .u64),
    ("base_hash", .raw 32), ("eligibility_root", .raw 32), ("inventory", .raw 32),
    ("nonce", .raw 16), ("attempt", .enum .zero8), ("signature", .raw 65)] : List (String × Ty))

def startFields : List (String × Ty) :=
  [("sid", .raw 32), ("open_height", .enum .u64), ("deadline", .enum .u64), ("time_id", .raw 32)]

def voteFields : List (String × Ty) :=
  ctx ++ ([("sid", .raw 32), ("submission", .raw 16), ("original", .raw 32), ("creator", .raw 20),
    ("key", .raw 33), ("media_height", .enum .u64), ("media_hash", .raw 32),
    ("base_height", .enum .u64), ("base_hash", .raw 32), ("deadline", .enum .u64),
    ("dimension", .enum .dimension), ("choice", .enum .choice), ("nonce", .raw 16),
    ("sequence", .enum .zero8), ("signature", .raw 65)] : List (String × Ty))

def admissionFields : List (String × Ty) :=
  [("vote", .schema .vote voteFields), ("result", .enum .result), ("first_height", .enum .u64),
    ("first_index", .enum .u16), ("status", .enum .status), ("charged_epoch", .enum .u64)]

def closeFields : List (String × Ty) :=
  [("sid", .raw 32), ("deadline", .enum .u64), ("freeze_height", .enum .u64),
    ("count", .enum .u64), ("fold", .raw 32), ("originality", .schema .tally tallyFields),
    ("admissibility", .schema .tally tallyFields), ("outcome", .enum .outcome)]

def participationFields : List (String × Ty) :=
  [("wallet", .raw 20), ("submission", .raw 16), ("epoch", .enum .u64), ("status", .enum .status),
    ("first_height", .enum .u64), ("first_index", .enum .u16), ("used_after", .enum .u8),
    ("cause", .raw 32)]

def epochFields : List (String × Ty) :=
  [("previous", .enum .u64), ("current", .enum .u64), ("lower", .enum .u64), ("time_id", .raw 32)]

def policyFields : List (String × Ty) :=
  [("old", .raw 32), ("new", .raw 32), ("result", .enum .unsupported)]

def dataFields : List (String × Ty) :=
  [("object_id", .raw 32), ("total", .enum .u32), ("offset", .enum .u32), ("chunk", .chunk)]

def referenceFields : List (String × Ty) :=
  [("kind", .enum .sourcekind), ("object_id", .raw 32), ("length", .enum .u32),
    ("height", .enum .u64), ("batch", .raw 32), ("index", .enum .u16)]

def timeSampleFields : List (String × Ty) :=
  [("validator", .enum .validator), ("reading", .enum .u64), ("signature", .raw 65)]

def clockFields : List (String × Ty) :=
  [("sequence", .enum .u64), ("samples", .array (.schema .timeSample timeSampleFields) 3 3)]

def headerFields : List (String × Ty) :=
  ctx ++ ([("height", .enum .u64), ("parent", .raw 32), ("previous_state", .raw 32),
    ("events_root", .raw 32), ("event_count", .enum .u16), ("event_bytes", .enum .u32),
    ("clock", .schema .clock clockFields)] : List (String × Ty))

def messageFields : List (String × Ty) :=
  ctx ++ ([("height", .enum .u64), ("parent", .raw 32), ("round", .enum .round),
    ("value", .raw 32), ("nil", .enum .bit), ("step", .enum .step),
    ("validator", .enum .validator), ("valid_round", .enum .vr), ("justification", .raw 32),
    ("signature", .raw 65)] : List (String × Ty))

def pvFields : List (String × Ty) :=
  [("votes", .array (.schema .message messageFields) 3 3)]

def proofFields : List (String × Ty) :=
  [("proposal", .schema .message messageFields),
    ("precommits", .array (.schema .message messageFields) 3 3)]

def checkpointFields : List (String × Ty) :=
  ctx ++ ([("height", .enum .u64), ("batch", .raw 32), ("proof", .raw 32)] : List (String × Ty))

def mediaFields : List (String × Ty) :=
  ctx ++ ([("checkpoint", .schema .checkpoint checkpointFields), ("sid", .raw 32),
    ("close_height", .enum .u64), ("close_batch", .raw 32), ("close_index", .enum .u16),
    ("close_id", .raw 32), ("submission", .raw 16), ("original", .raw 32), ("creator", .raw 20),
    ("media_height", .enum .u64), ("media_parent", .raw 32), ("count", .enum .u64),
    ("fold", .raw 32), ("originality", .schema .tally tallyFields),
    ("admissibility", .schema .tally tallyFields)] : List (String × Ty))

def mediaAnchorFields : List (String × Ty) :=
  [("height", .enum .u64), ("media_hash", .raw 32), ("parent", .raw 32), ("proof", .raw 32)]

def inventoryFields : List (String × Ty) :=
  [("entries", .array (.schema .reference referenceFields) 1 32)]

/-- `SCHEMAS`. -/
def Schema.fields : Schema → List (String × Ty)
  | .open => openFields
  | .start => startFields
  | .vote => voteFields
  | .admission => admissionFields
  | .close => closeFields
  | .participation => participationFields
  | .epoch => epochFields
  | .policy => policyFields
  | .data => dataFields
  | .reference => referenceFields
  | .timeSample => timeSampleFields
  | .clock => clockFields
  | .header => headerFields
  | .message => messageFields
  | .pv => pvFields
  | .proof => proofFields
  | .checkpoint => checkpointFields
  | .media => mediaFields
  | .tally => tallyFields
  | .mediaAnchor => mediaAnchorFields
  | .inventory => inventoryFields

/-- The type of a schema. -/
def Schema.ty (s : Schema) : Ty := .schema s s.fields

/-! ## Encoding -/

/-- A text of ASCII characters as bytes. -/
def asciiBytes (s : String) : List UInt8 := s.toList.map fun c => UInt8.ofNat c.toNat

/-- `bytes.fromhex` of a text of lower-case digits that write so many bytes. -/
def hexBytes (v : Value) (low high : Nat) (e : PyError) : Py (List UInt8) :=
  match v with
  | .str s => do
    let b ← orRaise (readHex s.toList) e
    require (low ≤ b.length ∧ b.length ≤ high) e
    .ok b
  | _ => .error e

/-- An integer of the table. -/
def encodeEnum (e : Enum) (v : Value) : Py (List UInt8) := do
  let n ← v.intIn e.low e.high (.value ("integer/enum bound " ++ e.name))
  .ok (if e = .vr then toBytesSigned e.width n else toBytes e.width n.toNat)

/-- A network, padded to 64 bytes. -/
def encodeNid (v : Value) : Py (List UInt8) :=
  match v with
  | .str s => do
    require (isValidNetworkId s = true) (.value "network")
    let raw := asciiBytes s
    .ok (toBytes 1 raw.length ++ raw ++ List.replicate (64 - raw.length) 0)
  | _ => .error (.value "network")

mutual

/-- `encode_type`. -/
def encodeType : Ty → Value → Py (List UInt8)
  | .raw width, v => hexBytes v width width (.value "raw width/case")
  | .array child low high, v =>
    match v with
    | .list xs => do
      require (low ≤ xs.length ∧ xs.length ≤ high) (.value "array bound")
      let items ← xs.mapM (encodeType child)
      .ok (toBytes 1 xs.length ++ items.flatten)
    | _ => .error (.value "array bound")
  | .schema name fields, v =>
    match v with
    | .dict d => do
      require ((∀ k ∈ Dict.keys d, k ∈ fields.map Prod.fst) ∧
        ∀ k ∈ fields.map Prod.fst, k ∈ Dict.keys d) (.value ("closed shape " ++ name.name))
      encodeFields fields d
    | _ => .error (.value ("closed shape " ++ name.name))
  | .nid, v => encodeNid v
  | .chunk, v => do
    let raw ← hexBytes v 1 8140 (.value "chunk bound")
    .ok (toBytes 2 raw.length ++ raw)
  | .enum e, v => encodeEnum e v

/-- The fields in the order of the schema. -/
def encodeFields : List (String × Ty) → Dict → Py (List UInt8)
  | [], _ => .ok []
  | (k, t) :: fields, d => do
    let v ← d.index k
    let raw ← encodeType t v
    let rest ← encodeFields fields d
    .ok (raw ++ rest)

end

/-- `pack`. -/
def pack (name : Schema) (obj : Value) : Py (List UInt8) := encodeType name.ty obj

/-! ## Decoding -/

/-- `take`. -/
def take (n : Nat) (b : List UInt8) : Py (List UInt8 × List UInt8) :=
  takeBytes n b (.value "truncated")

/-- `raw.decode('ascii')`. -/
def decodeAscii (raw : List UInt8) : Py String :=
  if raw.all (· < 128) then .ok (String.ofList (raw.map fun x => Char.ofNat x.toNat))
  else .error { exc := .unicodeDecodeError, message := "ordinal not in range(128)" }

/-- A network with its padding. -/
def readNid (b : List UInt8) : Py (Value × List UInt8) := do
  let (n, b) ← take 1 b
  let (block, b) ← take 64 b
  require (3 ≤ ofBytes n ∧ ofBytes n ≤ 64 ∧ (block.drop (ofBytes n)).all (· == 0) = true)
    (.value "network padding")
  let s ← decodeAscii (block.take (ofBytes n))
  .ok (.str s, b)

/-- A chunk behind its length. -/
def readChunk (b : List UInt8) : Py (Value × List UInt8) := do
  let (n, b) ← take 2 b
  require (1 ≤ ofBytes n ∧ ofBytes n ≤ 8140) (.value "chunk bound")
  let (raw, b) ← take (ofBytes n) b
  .ok (.str (hexText raw), b)

/-- `[read(child) for _ in range(n)]`. -/
def readMany (item : List UInt8 → Py (Value × List UInt8)) :
    Nat → List UInt8 → Py (List Value × List UInt8)
  | 0, b => .ok ([], b)
  | n + 1, b => do
    let (x, b) ← item b
    let (xs, b) ← readMany item n b
    .ok (x :: xs, b)

mutual

/-- `read`. -/
def read : Ty → List UInt8 → Py (Value × List UInt8)
  | .raw width, b => do
    let (raw, b) ← take width b
    .ok (.str (hexText raw), b)
  | .array child low high, b => do
    let (n, b) ← take 1 b
    require (low ≤ ofBytes n ∧ ofBytes n ≤ high) (.value "array bound")
    let (xs, b) ← readMany (read child) (ofBytes n) b
    .ok (.list xs, b)
  | .schema _ fields, b => do
    let (es, b) ← readFields fields b
    .ok (.dict es, b)
  | .nid, b => readNid b
  | .chunk, b => readChunk b
  | .enum e, b => do
    let (raw, b) ← take e.width b
    .ok (.int (if e = .vr then ofBytesSigned raw else ofBytes raw), b)

/-- `{k: read(v) for k, v in SCHEMAS[t]}`. -/
def readFields : List (String × Ty) → List UInt8 → Py (Dict × List UInt8)
  | [], b => .ok ([], b)
  | (k, t) :: fields, b => do
    let (v, b) ← read t b
    let (es, b) ← readFields fields b
    .ok ((k, v) :: es, b)

end

/-- `unpack`. -/
def unpack (name : Schema) (raw : List UInt8) : Py Value := do
  require (raw.length ≤ cap) (.value "raw bound")
  let (obj, rest) ← read name.ty raw
  let e := PyError.value "trailing/noncanonical"
  require (rest = []) e
  let again ← pack name obj
  require (again = raw) e
  .ok obj

/-! ## Frames and bodies -/

/-- An event: a schema and an object. -/
abbrev Event := Schema × Value

/-- `frame`. -/
def frame (event : Event) : Py (List UInt8) := do
  let raw ← pack event.1 event.2
  require (raw.length ≤ eventCap) (.value "event cap")
  .ok (toBytes 1 event.1.kind ++ toBytes 2 1 ++ toBytes 4 raw.length ++ raw)

/-- `unframe`. -/
def unframe (raw : List UInt8) : Py Event := do
  require (7 ≤ raw.length) (.value "truncated frame")
  let kind := ofBytes (raw.take 1)
  let version := ofBytes ((raw.drop 1).take 2)
  let size := ofBytes ((raw.drop 3).take 4)
  let e := PyError.value "frame version/kind/size"
  require (version = 1) e
  let name ← orRaise (ofKind? kind) e
  require (size ≤ eventCap ∧ size = raw.length - 7) e
  let obj ← unpack name (raw.drop 7)
  .ok (name, obj)

/-- `b''.join(frame(k, v) for k, v in events)`. -/
def frames (events : List Event) : Py (List UInt8) := do
  let parts ← events.mapM frame
  .ok parts.flatten

section Body

variable (sha256Hex : List UInt8 → String)

/-- `tagged`. -/
def tagged (tag : String) (raw : List UInt8) : String :=
  sha256Hex (asciiBytes "ZCRJ717R" ++ [0] ++ asciiBytes tag ++ [0] ++ raw)

/-- The header with the fields of its events. -/
def withEvents (header : Dict) (count : Nat) (framed : List UInt8) : Dict :=
  header.update [("events_root", .str (tagged sha256Hex "events" framed)),
    ("event_count", .int count), ("event_bytes", .int framed.length)]

/-- `body`. -/
def body (header : Dict) (events : List Event) : Py (List UInt8) := do
  require (events.length ≤ maxEvents) (.value "event count")
  let framed ← frames events
  let encoded ← pack .header (.dict (withEvents sha256Hex header events.length framed))
  let raw := asciiBytes "R717B001" ++ toBytes 2 1 ++ toBytes 2 encoded.length ++ encoded ++ framed
  require (raw.length ≤ cap) (.value "batch cap")
  .ok raw

/-- The loop over the events. -/
def parseEvents : Nat → List UInt8 → Py (List Event × List UInt8)
  | 0, b => .ok ([], b)
  | n + 1, b => do
    require (7 ≤ b.length) (.value "truncated event")
    let size := ofBytes ((b.drop 3).take 4)
    require (size ≤ eventCap) (.value "event cap")
    let event ← unframe (b.take (7 + size))
    let (events, rest) ← parseEvents n (b.drop (7 + size))
    .ok (event :: events, rest)

/-- An integer field of the header. -/
def intField (d : Dict) (key : String) : Py Int :=
  match d.get key with
  | .int n => .ok n
  | _ => .error (.type "unorderable types")

/-- `parse_body`. -/
def parseBody (raw : List UInt8) : Py (Dict × List Event) := do
  require (12 ≤ raw.length ∧ raw.length ≤ cap ∧ raw.take 8 = asciiBytes "R717B001")
    (.value "batch cap/magic")
  let version := ofBytes ((raw.drop 8).take 2)
  let length := ofBytes ((raw.drop 10).take 2)
  require (version = 1) (.value "batch version")
  let h ← unpack .header ((raw.drop 12).take length)
  let h ← h.asDict
  let count ← intField h "event_count"
  let bytes ← intField h "event_bytes"
  require (count ≤ maxEvents ∧ bytes = (raw.length : Int) - (12 + length : Nat))
    (.value "batch count/length")
  require (h.get "events_root" = .str (tagged sha256Hex "events" (raw.drop (12 + length))))
    (.value "events root")
  let (events, rest) ← parseEvents count.toNat (raw.drop (12 + length))
  let e := PyError.value "batch trailing/noncanonical"
  require (rest = []) e
  let again ← body sha256Hex h events
  require (again = raw) e
  .ok (h, events)

end Body

end Wire

end PagedReview

end ZoidbergChain
