import ZoidbergChain.PeerMessage.Envelope

/-!
# Domain separation of protocol v1 (protocol_v1.py)

The envelope of a payload under any object type, network, protocol name and protocol version, and
what its canonical bytes say about them.

- `Domain.buildDomainEnvelope`, `Domain.canonicalDomainBytes`: the two functions with all their
  arguments. `buildDomainEnvelope_default` is the link to the ones of the default protocol.
- `Separate`: no dictionary has the shape of the canonical bytes object. Canonical data is
  separate and is its own canonical data, and `expandBytes` is injective on it.
- `domainSeparation`: equal bytes have equal parts.
-/

namespace ZoidbergChain

open Python

/-! ## Names -/

/-- `OBJECT_TYPES`, in their order. -/
def ObjectType.all : List ObjectType :=
  [.block, .originalityCertificate, .submission, .submitterAttestation, .vote, .nativeTransfer,
    .finalityAttestation, .peerMessage, .genesis]

namespace Domain

/-- `[a-z0-9][a-z0-9-]{1,63}`: the pattern of protocol names and of object types. -/
def isValidName (s : String) : Bool :=
  match s.toList with
  | [] => false
  | c :: cs => isLowerAlnum c && decide (1 ≤ cs.length ∧ cs.length ≤ 63) &&
      cs.all fun c => isLowerAlnum c || c == '-'

/-- `normalize_protocol_name`. -/
def normalizeProtocolName (rt : Runtime) (value : Value) : Py String :=
  match value with
  | .str s =>
    let normalized := rt.lower (strip s)
    if isValidName (strip normalized) then .ok normalized
    else .error (.value s!"Invalid protocol_name: {rt.repr value}.")
  | _ => .error (.value "protocol_name must be a string.")

/-- `normalize_protocol_version`; a `bool` is no version. -/
def normalizeProtocolVersion : Value → Py Int
  | .int n =>
    if 0 < n then .ok n
    else .error (.value "protocol_version must be a positive integer.")
  | _ => .error (.value "protocol_version must be a positive integer.")

/-- `is_valid_object_type`. -/
def isValidObjectType (s : String) : Bool :=
  (ObjectType.all.map ObjectType.name).contains s && isValidName (strip s)

/-- `normalize_object_type`. -/
def normalizeObjectType (rt : Runtime) (value : Value) : Py String :=
  match value with
  | .str s =>
    let normalized := rt.lower (strip s)
    if isValidObjectType normalized then .ok normalized
    else .error (.value s!"Unsupported object_type: {rt.repr value}.")
  | _ => .error (.value "object_type must be a string.")

/-- `protocol_domain`. -/
def protocolDomain (rt : Runtime) (objectType protocolName protocolVersion : Value) :
    Py String := do
  let objectType ← normalizeObjectType rt objectType
  let protocolName ← normalizeProtocolName rt protocolName
  let protocolVersion ← normalizeProtocolVersion protocolVersion
  return protocolName ++ "/" ++ objectType ++ "/v" ++ toString protocolVersion

/-! ## Envelopes -/

/-- The arguments of `build_domain_envelope`. -/
structure DomainCall where
  payload : Value
  objectType : Value
  networkId : Value
  protocolName : Value
  protocolVersion : Value

/-- What a call is about: its arguments in their normal forms. -/
structure DomainParts where
  payload : Value
  objectType : String
  networkId : String
  protocolName : String
  protocolVersion : Int

section Envelope

variable (h : Host)

/-- `build_domain_envelope`. -/
def buildDomainEnvelope (c : DomainCall) : Py Dict := do
  let protocolName ← normalizeProtocolName h.toRuntime c.protocolName
  let protocolVersion ← normalizeProtocolVersion c.protocolVersion
  let networkId ← normalizeNetworkId h c.networkId
  let objectType ← normalizeObjectType h.toRuntime c.objectType
  -- the names of the domain are normalized a second time
  let domain ← protocolDomain h.toRuntime (.str objectType) (.str protocolName)
    (.int protocolVersion)
  let payload ← canonicalJsonData c.payload
  return [("domain", .str domain),
    ("network_id", .str networkId),
    ("object_type", .str objectType),
    ("payload", payload),
    ("protocol", .str protocolName),
    ("protocol_version", .int protocolVersion)]

/-- `canonical_domain_bytes`. -/
def canonicalDomainBytes (c : DomainCall) : Py ByteArray := do
  canonicalJsonBytes (.dict (← buildDomainEnvelope h c))

/-- The normal forms of the arguments. -/
def DomainCall.normalized (c : DomainCall) : Py DomainParts := do
  return {
    payload := ← canonicalJsonData c.payload
    objectType := ← normalizeObjectType h.toRuntime c.objectType
    networkId := ← normalizeNetworkId h c.networkId
    protocolName := ← normalizeProtocolName h.toRuntime c.protocolName
    protocolVersion := ← normalizeProtocolVersion c.protocolVersion }

end Envelope

/-! ## The default protocol -/

section Default

variable {h : Host}

/-- A lower-case name without spaces is its own normal form. -/
theorem lower_strip_eq_self {s : String} (hchars : ∀ x ∈ s.toList, x.toNat < 128 ∧ x.toLower = x)
    (hstrip : strip s = s) : h.lower (strip s) = s := by
  rw [hstrip]
  exact lower_eq_self hchars

theorem normalizeObjectType_name (objectType : ObjectType) :
    normalizeObjectType h.toRuntime (.str objectType.name) = .ok objectType.name := by
  have hlower : h.lower (strip objectType.name) = objectType.name := by
    refine lower_strip_eq_self ?_ ?_
    · cases objectType <;> decide
    · cases objectType <;> decide
  have hvalid : isValidObjectType objectType.name = true := by
    cases objectType <;> decide
  simp only [normalizeObjectType, hlower, hvalid, if_true]

theorem normalizeProtocolName_default :
    normalizeProtocolName h.toRuntime (.str protocolName) = .ok protocolName := by
  have hlower : h.lower (strip protocolName) = protocolName :=
    lower_strip_eq_self (by decide) (by decide)
  have hvalid : isValidName (strip protocolName) = true := by decide
  simp only [normalizeProtocolName, hlower, hvalid, if_true]

/-- The envelope of the default protocol is the one of the default arguments. -/
theorem buildDomainEnvelope_default (payload : Value) (objectType : ObjectType)
    (networkId : Value) :
    buildDomainEnvelope h
      ⟨payload, .str objectType.name, networkId, .str protocolName, .int protocolVersion⟩ =
        ZoidbergChain.buildDomainEnvelope h payload objectType networkId := by
  have hversion : normalizeProtocolVersion (.int protocolVersion) = .ok protocolVersion := rfl
  have hdomain : Domain.protocolDomain h.toRuntime (.str objectType.name) (.str protocolName)
      (.int protocolVersion) = .ok (ZoidbergChain.protocolDomain objectType) := by
    unfold Domain.protocolDomain
    rw [normalizeObjectType_name, normalizeProtocolName_default, hversion]
    cases objectType <;> rfl
  unfold buildDomainEnvelope ZoidbergChain.buildDomainEnvelope
  simp only [normalizeProtocolName_default, hversion, normalizeObjectType_name, hdomain, ok_bind]

end Default

/-! ## Separate data -/

mutual

/-- No dictionary has the shape of the canonical bytes object, and every dictionary is in the
order of its keys. -/
def Separate : Value → Prop
  | .list xs => SeparateItems xs
  | .dict es => isBytesTagged es = false ∧ Json.sortEntries es = es ∧ SeparateEntries es
  | .float _ => False
  | _ => True

def SeparateItems : List Value → Prop
  | [] => True
  | x :: xs => Separate x ∧ SeparateItems xs

def SeparateEntries : List (String × Value) → Prop
  | [] => True
  | (_, v) :: es => Separate v ∧ SeparateEntries es

end

theorem separateEntries_iff {es : List (String × Value)} :
    SeparateEntries es ↔ ∀ e ∈ es, Separate e.2 := by
  induction es with
  | nil => simp [SeparateEntries]
  | cons e es ih => simp [SeparateEntries, ih]

/-- The shape is one of the set of keys. -/
theorem isBytesTagged_congr {es fs : List (String × Value)}
    (hkeys : (es.map Prod.fst).Perm (fs.map Prod.fst)) : isBytesTagged es = isBytesTagged fs := by
  have hall : ∀ gs : List (String × Value), isBytesTagged gs =
      ((gs.map Prod.fst).all bytesTagKeys.contains &&
        bytesTagKeys.all fun k => (gs.map Prod.fst).any (· == k)) := by
    intro gs
    simp only [isBytesTagged, List.all_map, List.any_map]
    rfl
  rw [hall, hall, hkeys.all_eq]
  congr 2
  funext k
  exact hkeys.any_eq

theorem keys_canonicalJsonEntries {es fs : List (String × Value)}
    (h : canonicalJsonEntries es = .ok fs) : fs.map Prod.fst = es.map Prod.fst := by
  induction es generalizing fs with
  | nil =>
    cases h
    rfl
  | cons e es ih =>
    rw [canonicalJsonEntries] at h
    obtain ⟨w, -, h⟩ := bind_eq_ok.mp h
    obtain ⟨gs, hgs, ⟨⟩⟩ := bind_eq_ok.mp h
    rw [List.map_cons, List.map_cons, ih hgs]

mutual

/-- Canonical data is separate. -/
theorem separate_of_canonicalJsonData : ∀ {v w : Value}, canonicalJsonData v = .ok w → Separate w
  | .null, _, h | .bool _, _, h | .int _, _, h | .str _, _, h | .bytes _, _, h => by
    cases h
    trivial
  | .float .nan, _, h | .float (.inf _), _, h | .float (.finite _), _, h => by cases h
  | .list xs, _, h => by
    rw [canonicalJsonData] at h
    obtain ⟨ys, hys, ⟨⟩⟩ := bind_eq_ok.mp h
    exact separateItems_of_canonicalJsonItems hys
  | .dict es, _, h => by
    rw [canonicalJsonData] at h
    obtain ⟨_, htag, h⟩ := bind_eq_ok.mp h
    obtain ⟨fs, hfs, ⟨⟩⟩ := bind_eq_ok.mp h
    have hperm := CanonicalV3.perm_sortEntries fs
    have hkeys : ((Json.sortEntries fs).map Prod.fst).Perm (es.map Prod.fst) := by
      rw [← keys_canonicalJsonEntries hfs]
      exact hperm.map Prod.fst
    refine ⟨?_, CanonicalV3.sortEntries_sortEntries fs, separateEntries_iff.mpr fun e he => ?_⟩
    · rw [isBytesTagged_congr hkeys]
      exact require_eq_ok.mp htag
    · exact separate_of_canonicalJsonEntries hfs e (hperm.mem_iff.mp he)

theorem separateItems_of_canonicalJsonItems : ∀ {xs ys : List Value},
    canonicalJsonItems xs = .ok ys → SeparateItems ys
  | [], _, h => by
    cases h
    trivial
  | x :: xs, _, h => by
    rw [canonicalJsonItems] at h
    obtain ⟨y, hy, h⟩ := bind_eq_ok.mp h
    obtain ⟨ys, hys, ⟨⟩⟩ := bind_eq_ok.mp h
    exact ⟨separate_of_canonicalJsonData hy, separateItems_of_canonicalJsonItems hys⟩

theorem separate_of_canonicalJsonEntries : ∀ {es fs : List (String × Value)},
    canonicalJsonEntries es = .ok fs → ∀ e ∈ fs, Separate e.2
  | [], _, h => by
    cases h
    simp
  | (k, v) :: es, _, h => by
    rw [canonicalJsonEntries] at h
    obtain ⟨w, hw, h⟩ := bind_eq_ok.mp h
    obtain ⟨fs, hfs, ⟨⟩⟩ := bind_eq_ok.mp h
    exact List.forall_mem_cons.mpr
      ⟨separate_of_canonicalJsonData hw, separate_of_canonicalJsonEntries hfs⟩

end

mutual

/-- Separate data is its own canonical data. -/
theorem canonicalJsonData_of_separate : ∀ {v : Value}, Separate v → canonicalJsonData v = .ok v
  | .null, _ | .bool _, _ | .int _, _ | .str _, _ | .bytes _, _ => rfl
  | .float _, h => h.elim
  | .list xs, h => by
    rw [canonicalJsonData, @canonicalJsonItems_of_separate xs h]
    rfl
  | .dict es, h => by
    obtain ⟨htag, hsorted, hes⟩ := h
    rw [canonicalJsonData, require_pos htag, canonicalJsonEntries_of_separate hes]
    show Except.ok (Value.dict (Json.sortEntries es)) = _
    rw [hsorted]

theorem canonicalJsonItems_of_separate : ∀ {xs : List Value}, SeparateItems xs →
    canonicalJsonItems xs = .ok xs
  | [], _ => rfl
  | x :: xs, h => by
    rw [canonicalJsonItems, canonicalJsonData_of_separate h.1, canonicalJsonItems_of_separate h.2]
    rfl

theorem canonicalJsonEntries_of_separate : ∀ {es : List (String × Value)}, SeparateEntries es →
    canonicalJsonEntries es = .ok es
  | [], _ => rfl
  | (k, v) :: es, h => by
    rw [canonicalJsonEntries, canonicalJsonData_of_separate h.1,
      canonicalJsonEntries_of_separate h.2]
    rfl

end

theorem hexText_inj {b c : List UInt8} (h : hexText b = hexText c) : b = c := by
  have hread := readHex_hexText b
  rw [h, readHex_hexText] at hread
  exact (Option.some.inj hread).symm

theorem keys_expandEntries (es : List (String × Value)) :
    (expandEntries es).map Prod.fst = es.map Prod.fst := by
  induction es with
  | nil => rfl
  | cons e es ih => rw [expandEntries, List.map_cons, List.map_cons, ih]

/-- A dictionary that is written as bytes has their shape. -/
theorem expandEntries_ne {es : List (String × Value)} (htag : isBytesTagged es = false)
    (b : List UInt8) : expandEntries es ≠ encodeCanonicalBytes b := by
  intro h
  have hkeys : es.map Prod.fst = (encodeCanonicalBytes b).map Prod.fst := by
    rw [← keys_expandEntries, h]
  have hshape : isBytesTagged (encodeCanonicalBytes b) = true := rfl
  rw [← isBytesTagged_congr (.of_eq hkeys), htag] at hshape
  exact Bool.noConfusion hshape

mutual

/-- Separate data that is written alike is the same. -/
theorem expandBytes_inj : ∀ {v w : Value}, Separate v → Separate w →
    expandBytes v = expandBytes w → v = w
  | .null, w, _, _, h => by
    cases w with
    | null => rfl
    | _ => cases h
  | .bool x, w, _, _, h => by
    cases w with
    | bool y => exact h
    | _ => cases h
  | .int n, w, _, _, h => by
    cases w with
    | int m => exact h
    | _ => cases h
  | .str s, w, _, _, h => by
    cases w with
    | str t => exact h
    | _ => cases h
  | .float _, _, hv, _, _ => hv.elim
  | .bytes b, w, _, hw, h => by
    cases w with
    | bytes c =>
      simp only [expandBytes, encodeCanonicalBytes, Value.dict.injEq, List.cons.injEq,
        Prod.mk.injEq, Value.str.injEq, true_and, and_true] at h
      rw [hexText_inj h]
    | dict fs =>
      exact absurd (Value.dict.inj h).symm (expandEntries_ne hw.1 b)
    | _ => cases h
  | .list xs, w, hv, hw, h => by
    cases w with
    | list ys => rw [expandItems_inj hv hw (Value.list.inj h)]
    | _ => cases h
  | .dict es, w, hv, hw, h => by
    cases w with
    | dict fs => rw [expandEntries_inj hv.2.2 hw.2.2 (Value.dict.inj h)]
    | bytes c => exact absurd (Value.dict.inj h) (expandEntries_ne hv.1 c)
    | _ => cases h

theorem expandItems_inj : ∀ {xs ys : List Value}, SeparateItems xs → SeparateItems ys →
    expandItems xs = expandItems ys → xs = ys
  | [], [], _, _, _ => rfl
  | [], _ :: _, _, _, h => by cases h
  | _ :: _, [], _, _, h => by cases h
  | x :: xs, y :: ys, hx, hy, h => by
    obtain ⟨hhead, htail⟩ := List.cons.inj h
    rw [expandBytes_inj hx.1 hy.1 hhead, expandItems_inj hx.2 hy.2 htail]

theorem expandEntries_inj : ∀ {es fs : List (String × Value)}, SeparateEntries es →
    SeparateEntries fs → expandEntries es = expandEntries fs → es = fs
  | [], [], _, _, _ => rfl
  | [], _ :: _, _, _, h => by cases h
  | _ :: _, [], _, _, h => by cases h
  | (k, v) :: es, (l, w) :: fs, hv, hw, h => by
    obtain ⟨hhead, htail⟩ := List.cons.inj h
    obtain ⟨rfl, hvalue⟩ := Prod.mk.inj hhead
    rw [expandBytes_inj hv.1 hw.1 hvalue, expandEntries_inj hv.2 hw.2 htail]

end

/-- Equal canonical bytes are of equal canonical data. -/
theorem canonicalJsonData_eq_of_bytes {v w : Value} {raw : ByteArray}
    (hv : canonicalJsonBytes v = .ok raw) (hw : canonicalJsonBytes w = .ok raw) :
    ∃ data, canonicalJsonData v = .ok data ∧ canonicalJsonData w = .ok data := by
  obtain ⟨a, b, ha, hb, hexpand⟩ := PeerMessage.canonicalJsonBytes_inj hv hw
  have hab := expandBytes_inj (separate_of_canonicalJsonData ha)
    (separate_of_canonicalJsonData hb) hexpand
  exact ⟨a, ha, hab ▸ hb⟩

/-! ## Separation -/

section Separation

variable {h : Host}

/-- The envelope of the parts of a call. -/
def DomainParts.envelope (p : DomainParts) (domain : String) : Dict :=
  [("domain", .str domain), ("network_id", .str p.networkId), ("object_type", .str p.objectType),
    ("payload", p.payload), ("protocol", .str p.protocolName),
    ("protocol_version", .int p.protocolVersion)]

/-- A call that succeeds writes the envelope of its parts. -/
theorem buildDomainEnvelope_eq_ok {c : DomainCall} {envelope : Dict}
    (hc : buildDomainEnvelope h c = .ok envelope) :
    ∃ parts domain, c.normalized h = .ok parts ∧ envelope = parts.envelope domain ∧
      Separate parts.payload := by
  obtain ⟨name, hname, hc⟩ := bind_eq_ok.mp hc
  obtain ⟨version, hversion, hc⟩ := bind_eq_ok.mp hc
  obtain ⟨network, hnetwork, hc⟩ := bind_eq_ok.mp hc
  obtain ⟨objectType, hobject, hc⟩ := bind_eq_ok.mp hc
  obtain ⟨domain, -, hc⟩ := bind_eq_ok.mp hc
  obtain ⟨payload, hpayload, hc⟩ := bind_eq_ok.mp hc
  refine ⟨⟨payload, objectType, network, name, version⟩, domain, ?_, (pure_eq_ok.mp hc).symm,
    separate_of_canonicalJsonData hpayload⟩
  rw [DomainCall.normalized, hpayload, hobject, hnetwork, hname, hversion]
  rfl

/-- The keys of an envelope are in order, and they are not the ones of bytes. -/
theorem DomainParts.separate_envelope {p : DomainParts} {domain : String}
    (hp : Separate p.payload) : Separate (.dict (p.envelope domain)) := by
  refine ⟨rfl, CanonicalV3.sortEntries_of_pairwise ?_, ?_⟩
  · show ["domain", "network_id", "object_type", "payload", "protocol",
      "protocol_version"].Pairwise (· < ·)
    decide
  · exact ⟨trivial, trivial, trivial, hp, trivial, trivial, trivial⟩

/-- A call that builds its envelope has bytes. -/
theorem exists_canonicalDomainBytes {c : DomainCall} {envelope : Dict}
    (hc : buildDomainEnvelope h c = .ok envelope) : ∃ raw, canonicalDomainBytes h c = .ok raw := by
  obtain ⟨p, domain, -, rfl, hpayload⟩ := buildDomainEnvelope_eq_ok hc
  have hdata := canonicalJsonData_of_separate
    (@DomainParts.separate_envelope _ domain hpayload)
  have htext : canonicalJsonText (.dict (p.envelope domain)) =
      .ok (String.ofList (Json.render false (expandBytes (.dict (p.envelope domain))))) := by
    rw [canonicalJsonText, hdata]
    rfl
  refine ⟨encodeUtf8 (String.ofList (Json.render false (expandBytes (.dict (p.envelope domain))))),
    ?_⟩
  rw [canonicalDomainBytes, hc]
  show canonicalJsonBytes (.dict (p.envelope domain)) = _
  rw [canonicalJsonBytes, htext]
  rfl

/-- Only the normal form of the network counts. -/
theorem canonicalDomainBytes_networkId {c : DomainCall} {value : Value}
    (hvalue : normalizeNetworkId h value = normalizeNetworkId h c.networkId) :
    canonicalDomainBytes h { c with networkId := value } = canonicalDomainBytes h c := by
  unfold canonicalDomainBytes buildDomainEnvelope
  rw [hvalue]

/-- Encoded bytes are decoded. -/
theorem decodeCanonicalBytes_encode (b : List UInt8) :
    decodeCanonicalBytes (.dict (encodeCanonicalBytes b)) = .ok b := by
  have htag : isBytesTagged (encodeCanonicalBytes b) = true := rfl
  have htype : Dict.get (encodeCanonicalBytes b) "$type" = .str "bytes" := rfl
  have hencoding : Dict.get (encodeCanonicalBytes b) "$encoding" = .str "hex" := rfl
  have hvalue : Dict.get (encodeCanonicalBytes b) "$value" = .str (hexText b) := rfl
  rw [decodeCanonicalBytes, require_pos htag, require_pos htype, require_pos hencoding, hvalue]
  simp only [ok_bind, readHex_hexText]

/-- Two calls with the same canonical bytes are about the same object: their payloads in normal
form, object types, networks, protocol names and versions are equal. The bytes of a payload can be
read back from the object that stands for them. -/
theorem domainSeparation {c c' : DomainCall} {raw : ByteArray}
    (hc : canonicalDomainBytes h c = .ok raw) (hc' : canonicalDomainBytes h c' = .ok raw) :
    (∃ parts, c.normalized h = .ok parts ∧ c'.normalized h = .ok parts) ∧
      ∀ b, decodeCanonicalBytes (.dict (encodeCanonicalBytes b)) = .ok b := by
  constructor
  · obtain ⟨envelope, henvelope, hbytes⟩ := bind_eq_ok.mp hc
    obtain ⟨envelope', henvelope', hbytes'⟩ := bind_eq_ok.mp hc'
    obtain ⟨p, domain, hp, rfl, hpayload⟩ := buildDomainEnvelope_eq_ok henvelope
    obtain ⟨p', domain', hp', rfl, hpayload'⟩ := buildDomainEnvelope_eq_ok henvelope'
    obtain ⟨data, hdata, hdata'⟩ := canonicalJsonData_eq_of_bytes hbytes hbytes'
    rw [canonicalJsonData_of_separate (DomainParts.separate_envelope hpayload)] at hdata
    rw [canonicalJsonData_of_separate (DomainParts.separate_envelope hpayload')] at hdata'
    have hsame := (Except.ok.inj hdata).trans (Except.ok.inj hdata').symm
    -- the six fields are compared one by one
    simp only [DomainParts.envelope, Value.dict.injEq, List.cons.injEq, Prod.mk.injEq,
      Value.str.injEq, Value.int.injEq, true_and, and_true] at hsame
    obtain ⟨-, hnetwork, hobject, hpayload, hname, hversion⟩ := hsame
    have hparts : p = p' := by
      cases p
      cases p'
      simp only [DomainParts.mk.injEq]
      exact ⟨hpayload, hobject, hnetwork, hname, hversion⟩
    exact ⟨p, hp, hparts ▸ hp'⟩
  · exact decodeCanonicalBytes_encode

/-- Network names with and without spaces and capitals are the same network. -/
def sampleCall (networkId : String) : DomainCall where
  payload := .dict [("b", .bytes [255, 0]), ("a", .list [.bool true, .int 1])]
  objectType := .str "vote"
  networkId := .str networkId
  protocolName := .str protocolName
  protocolVersion := .int 1

theorem domainSeparation_sample :
    (∃ parts, (sampleCall "net-1").normalized (Host.sample none none) = .ok parts ∧
      (sampleCall " NET-1 ").normalized (Host.sample none none) = .ok parts) ∧
      ∀ b, decodeCanonicalBytes (.dict (encodeCanonicalBytes b)) = .ok b := by
  have hread : ∀ name ∈ ["net-1", " NET-1 "],
      (normalizeNetworkId (Host.sample none none) (.str name)).toOption = some "net-1" := by
    decide +kernel
  have hnetwork : normalizeNetworkId (Host.sample none none) (.str " NET-1 ") =
      normalizeNetworkId (Host.sample none none) (.str "net-1") :=
    (eq_ok_of_toOption (hread _ (by simp))).trans (eq_ok_of_toOption (hread _ (by simp))).symm
  have hsame : canonicalDomainBytes (Host.sample none none) (sampleCall " NET-1 ") =
      canonicalDomainBytes (Host.sample none none) (sampleCall "net-1") :=
    canonicalDomainBytes_networkId (c := sampleCall "net-1") hnetwork
  have hok : (buildDomainEnvelope (Host.sample none none) (sampleCall "net-1")).isOk = true := by
    decide +kernel
  obtain ⟨envelope, henvelope⟩ := exists_of_isOk hok
  obtain ⟨raw, hraw⟩ := exists_canonicalDomainBytes henvelope
  exact domainSeparation hraw (hsame.trans hraw)

end Separation

end Domain

end ZoidbergChain
