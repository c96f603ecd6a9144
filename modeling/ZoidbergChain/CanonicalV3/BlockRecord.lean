import ZoidbergChain.CanonicalV3.IssuedBlock

/-!
# Block records are canonical

- `parseRecord_of_encode`: what `encode_record` writes is read as the record.
- `parseRecord_eq`: an accepted record is the one of its payload.
- `blockRoundTrip`: the two directions for payloads.
-/

namespace ZoidbergChain

open Python

namespace CanonicalV3

variable {crypto : Crypto} {ctx : Context}

/-! ## From a payload to its record -/

theorem unique_blockRecord {payload : Value} (hunique : Unique payload) (preimage : ByteArray) :
    Unique (blockRecord crypto (envelope payload "block" ctx) preimage) :=
  ⟨(by decide : ["envelope", "hash"].Nodup), ⟨(by decide : envelopeFields.Nodup), trivial,
    trivial, trivial, hunique, trivial, trivial, trivial⟩, trivial, trivial⟩

/-- The constant fields of an envelope. -/
def envelopeConstants (ctx : Context) : Dict :=
  [("domain", .str "zoidbergchain/block/v2"), ("network_id", .str ctx.networkId),
    ("object_type", .str "block"), ("protocol", .str "zoidbergchain"),
    ("protocol_version", .int 2)]

theorem fieldsEqual_envelope (payload : Value) :
    fieldsEqual (envelope payload "block" ctx) (envelopeConstants ctx) = .ok () := by
  have hconst : ∀ v ∈ [Value.str "zoidbergchain/block/v2", .str "block", .str "zoidbergchain",
      .int 2], jsonValue 0 v = .ok () := by decide +kernel
  have hnetwork : jsonValue 0 (.str ctx.networkId) = .ok () := by
    obtain ⟨hplain, hlength⟩ := plain_networkId ctx
    exact jsonValue_plain hplain (hlength.trans (by decide))
  rw [fieldsEqual_eq_ok]
  simp only [envelopeConstants, List.forall_mem_cons]
  exact ⟨fixed_self (hconst (.str "zoidbergchain/block/v2") (by decide)), fixed_self hnetwork,
    fixed_self (hconst (.str "block") (by decide)),
    fixed_self (hconst (.str "zoidbergchain") (by decide)),
    fixed_self (hconst (.int 2) (by decide)), nofun⟩

/-- What `encode_record` has written is read as the record with sorted keys. -/
theorem parseRecord_of_encode {payload : Value} {raw : ByteArray} (hunique : Unique payload)
    (h : encodeRecord crypto ctx payload = .ok raw) :
    ∃ preimage, canonical (envelope payload "block" ctx) = .ok preimage ∧
      parseRecord crypto ctx raw =
        .ok (Json.sortKeys (blockRecord crypto (envelope payload "block" ctx) preimage)) := by
  obtain ⟨⟨⟩, hvalid, h⟩ := bind_eq_ok.mp h
  obtain ⟨preimage, hpreimage, h⟩ := bind_eq_ok.mp h
  obtain ⟨raw', hraw, h⟩ := bind_eq_ok.mp h
  obtain ⟨sizes, hsizes, hout⟩ := bind_eq_ok.mp h
  obtain rfl := Except.ok.inj hout
  refine ⟨preimage, hpreimage, ?_⟩
  have hsize : checkCompleteSize raw' = .ok () := by
    obtain ⟨⟨⟩, hcomplete, -⟩ := bind_eq_ok.mp hsizes
    exact hcomplete
  have hparse : parse raw' maxRecord =
      .ok (Json.sortKeys (blockRecord crypto (envelope payload "block" ctx) preimage)) :=
    parse_canonical (unique_blockRecord hunique preimage) hraw (require_eq_ok.mp hsize)
  obtain ⟨d, hclosed, -⟩ := bind_eq_ok.mp hvalid
  have hobject : payload.isObject = true := by
    rw [closed_eq_ok hclosed]
    rfl
  obtain ⟨bytes, hdescriptor⟩ :
      ∃ bytes, validateDescriptor (payload.field "media") = .ok bytes := by
    obtain ⟨⟨⟩, -, hvalid⟩ := bind_eq_ok.mp (bind_eq_ok.mp hvalid).choose_spec.2
    obtain ⟨⟨⟩, -, hvalid⟩ := bind_eq_ok.mp hvalid
    obtain ⟨bytes, hdescriptor, -⟩ := bind_eq_ok.mp hvalid
    exact ⟨bytes, hdescriptor⟩
  have hrecord : (blockRecord crypto (envelope payload "block" ctx) preimage).field "envelope" =
      envelope payload "block" ctx := rfl
  have hpayload : (envelope payload "block" ctx).field "payload" = payload := rfl
  have hhash : (blockRecord crypto (envelope payload "block" ctx) preimage).field "hash" =
      .str (crypto.sha256Hex preimage) := rfl
  have hkeys : ∃ d, closed (blockRecord crypto (envelope payload "block" ctx) preimage)
      ["envelope", "hash"] [] = .ok d := ⟨_, rfl⟩
  have henvelope : ∃ d, closed (envelope payload "block" ctx) envelopeFields [] = .ok d := ⟨_, rfl⟩
  rw [parseRecord, hsize, ok_bind, hparse, ok_bind]
  simp only [bind_eq_ok, exists_closed_and, field_sortKeys, hrecord, hpayload, hhash,
    fieldsEqual_sortKeys, h64_sortKeys, canonical_sortKeys, isObject_sortKeys,
    validateDescriptor_sortKeys, checkBudgets_sortKeys, validatePayload_sortKeys]
  obtain ⟨e, hkeys⟩ := hkeys
  obtain ⟨e', henvelope⟩ := henvelope
  exact ⟨e, hkeys, e', henvelope, (), fieldsEqual_envelope payload, _,
    h64_isHex64 (crypto.sha256Hex_isHex64 preimage), preimage, hpreimage, (), require_pos rfl,
    (), require_pos hobject, d, hclosed, bytes, hdescriptor, sizes, hsizes, (), hvalid, trivial⟩

/-! ## From a record to its payload -/

theorem fixed_str {v : Value} {s : String} {u : Unit} (h : fixed v (.str s) = .ok u) :
    v = .str s := sortKeys_eq_str.mp (fixed_eq_ok.mp h).2

theorem fixed_int {v : Value} {n : Int} {u : Unit} (h : fixed v (.int n) = .ok u) :
    v = .int n := sortKeys_eq_int.mp (fixed_eq_ok.mp h).2

/-- An accepted record is the one of its payload. -/
theorem parseRecord_eq {raw : ByteArray} {record : Value}
    (h : parseRecord crypto ctx raw = .ok record) :
    ∃ payload preimage sizes, canonical (envelope payload "block" ctx) = .ok preimage ∧
      record = blockRecord crypto (envelope payload "block" ctx) preimage ∧
      Ordered record ∧ canonical record = .ok raw ∧ checkBudgets record raw = .ok sizes ∧
      validatePayload crypto ctx payload = .ok () := by
  obtain ⟨⟨⟩, -, h⟩ := bind_eq_ok.mp h
  obtain ⟨record', hparse, h⟩ := bind_eq_ok.mp h
  obtain ⟨d, hclosed, h⟩ := bind_eq_ok.mp h
  obtain ⟨e, henvelope, h⟩ := bind_eq_ok.mp h
  obtain ⟨⟨⟩, hfixed, h⟩ := bind_eq_ok.mp h
  obtain ⟨stated, hstated, h⟩ := bind_eq_ok.mp h
  obtain ⟨preimage, hpreimage, h⟩ := bind_eq_ok.mp h
  obtain ⟨⟨⟩, hhash, h⟩ := bind_eq_ok.mp h
  obtain ⟨⟨⟩, -, h⟩ := bind_eq_ok.mp h
  obtain ⟨_, -, h⟩ := bind_eq_ok.mp h
  obtain ⟨_, -, h⟩ := bind_eq_ok.mp h
  obtain ⟨sizes, hsizes, h⟩ := bind_eq_ok.mp h
  obtain ⟨⟨⟩, hvalid, hout⟩ := bind_eq_ok.mp h
  obtain rfl := Except.ok.inj hout
  obtain ⟨-, hordered, hraw⟩ := parse_eq_ok.mp hparse
  obtain rfl := closed_eq_ok hclosed
  have hvalue : (Value.dict d).field "envelope" = .dict e := closed_eq_ok henvelope
  have horderedEnvelope : Ordered (.dict e) := hvalue ▸ ordered_get hordered
  obtain ⟨-, hentries⟩ := eq_of_closed hordered.1 hclosed
    (by decide +kernel : ["envelope", "hash"].Pairwise (· < ·)) fun _ => Iff.rfl
  rw [hvalue] at henvelope
  obtain ⟨-, hfields⟩ := eq_of_closed horderedEnvelope.1 henvelope
    (by decide +kernel : envelopeFields.Pairwise (· < ·)) fun _ => Iff.rfl
  -- the constant fields are the ones of an envelope of this payload
  rw [hvalue] at hfixed hpreimage hvalid
  have hconst : fieldsEqual (.dict e) (envelopeConstants ctx) = .ok () := hfixed
  simp only [fieldsEqual_eq_ok, envelopeConstants, List.forall_mem_cons] at hconst
  obtain ⟨hdomain, hnetwork, htype, hprotocol, hversion, -⟩ := hconst
  have heq : Value.dict e = envelope ((Value.dict e).field "payload") "block" ctx := by
    have hdomain : Dict.get e "domain" = _ := fixed_str hdomain
    have hnetwork : Dict.get e "network_id" = _ := fixed_str hnetwork
    have htype : Dict.get e "object_type" = _ := fixed_str htype
    have hprotocol : Dict.get e "protocol" = _ := fixed_str hprotocol
    have hversion : Dict.get e "protocol_version" = _ := fixed_int hversion
    simp only [envelopeFields, List.map_cons, List.map_nil, hdomain, hnetwork, htype, hprotocol,
      hversion] at hfields
    exact congrArg Value.dict hfields
  refine ⟨(Value.dict e).field "payload", preimage, sizes, heq ▸ hpreimage, ?_, hordered, hraw,
    hsizes, hvalid⟩
  have hget : Dict.get d "envelope" = .dict e := hvalue
  have hhashField : Dict.get d "hash" = .str (crypto.sha256Hex preimage) := by
    rw [← require_eq_ok.mp hhash]
    exact (pattern_eq_ok.mp hstated).1
  rw [← heq, blockRecord]
  simp only [List.map_cons, List.map_nil, hget, hhashField] at hentries
  exact congrArg Value.dict hentries

theorem encode_of_parseRecord {raw : ByteArray} {record : Value}
    (h : parseRecord crypto ctx raw = .ok record) :
    encodeRecord crypto ctx ((record.field "envelope").field "payload") = .ok raw := by
  obtain ⟨payload, preimage, sizes, hpreimage, rfl, -, hraw, hsizes, hvalid⟩ := parseRecord_eq h
  have hpayload : ((blockRecord crypto (envelope payload "block" ctx) preimage).field
      "envelope").field "payload" = payload := rfl
  simp only [hpayload, encodeRecord, hvalid, hpreimage, hraw, hsizes, ok_bind]

/-- The payload of a block comes back from its record, which is hashed by its envelope, and an
accepted byte string is the record of its payload. -/
theorem blockRoundTrip (crypto : Crypto) (ctx : Context) :
    (∀ payload, Unique payload → validatePayload crypto ctx payload = .ok () →
      ∃ raw record preimage, encodeRecord crypto ctx payload = .ok raw ∧
        parseRecord crypto ctx raw = .ok record ∧
        SameValue ((record.field "envelope").field "payload") payload ∧
        ((record.field "envelope").field "payload").pyEq payload = true ∧
        canonical (record.field "envelope") = .ok preimage ∧
        canonical (envelope payload "block" ctx) = .ok preimage ∧
        record.field "hash" = .str (crypto.sha256Hex preimage)) ∧
    (∀ raw record, parseRecord crypto ctx raw = .ok record →
      encodeRecord crypto ctx ((record.field "envelope").field "payload") = .ok raw) ∧
    ∀ raw raw' record record', parseRecord crypto ctx raw = .ok record →
      parseRecord crypto ctx raw' = .ok record' →
      SameValue ((record.field "envelope").field "payload")
        ((record'.field "envelope").field "payload") → raw = raw' := by
  refine ⟨fun payload hunique hvalid => ?_, fun raw record h => encode_of_parseRecord h,
    fun raw raw' record record' h h' hsame => ?_⟩
  · obtain ⟨raw, -, -, -, -, -, hraw, -⟩ := encodeRecord_of_valid hvalid hunique
    obtain ⟨preimage, hpreimage, hparse⟩ := parseRecord_of_encode hunique hraw
    have hjson : jsonValue 0 payload = .ok () := (payloadFits hvalid hunique).json
    have hrecord : (blockRecord crypto (envelope payload "block" ctx) preimage).field "envelope" =
        envelope payload "block" ctx := rfl
    have hpayload : (envelope payload "block" ctx).field "payload" = payload := rfl
    have hhash : (blockRecord crypto (envelope payload "block" ctx) preimage).field "hash" =
        .str (crypto.sha256Hex preimage) := rfl
    refine ⟨raw, _, preimage, hraw, hparse, ?_, ?_, ?_, hpreimage, ?_⟩
    · rw [field_sortKeys, field_sortKeys, hrecord, hpayload]
      exact SameValue.sorted payload
    · rw [field_sortKeys, field_sortKeys, hrecord, hpayload]
      exact pyEq_sortKeys hjson hunique
    · rw [field_sortKeys, hrecord, canonical_sortKeys]
      exact hpreimage
    · rw [field_sortKeys, hhash]
      rfl
  · -- both payloads are sorted already
    obtain ⟨payload, preimage, -, -, rfl, hordered, -⟩ := parseRecord_eq h
    obtain ⟨payload', preimage', -, -, rfl, hordered', -⟩ := parseRecord_eq h'
    have hpayload : ((blockRecord crypto (envelope payload "block" ctx) preimage).field
        "envelope").field "payload" = payload := rfl
    have hpayload' : ((blockRecord crypto (envelope payload' "block" ctx) preimage').field
        "envelope").field "payload" = payload' := rfl
    have hencode := encode_of_parseRecord h
    have hencode' := encode_of_parseRecord h'
    have hsorted : payload = payload' := by
      rw [hpayload, hpayload', SameValue] at hsame
      rw [← sortKeys_of_ordered (v := payload) hordered.2.1.2.2.2.2.1,
        ← sortKeys_of_ordered (v := payload') hordered'.2.1.2.2.2.2.1]
      exact hsame
    rw [hpayload] at hencode
    rw [hpayload', ← hsorted] at hencode'
    exact Except.ok.inj (hencode.symm.trans hencode')

/-- The block of five reviewers has a record, which is read again. -/
theorem blockRoundTrip_sample :
    ∃ raw record, encodeRecord sampleCrypto sampleContext sampleBlock.payload = .ok raw ∧
      parseRecord sampleCrypto sampleContext raw = .ok record ∧
      SameValue ((record.field "envelope").field "payload") sampleBlock.payload ∧
      encodeRecord sampleCrypto sampleContext ((record.field "envelope").field "payload") =
        .ok raw := by
  obtain ⟨hforth, hback, -⟩ := blockRoundTrip sampleCrypto sampleContext
  obtain ⟨raw, record, preimage, hraw, hrecord, hsame, -⟩ :=
    hforth sampleBlock.payload sampleBlock.writes_payload.unique
      (validatePayload_issued sampleBlock)
  exact ⟨raw, record, hraw, hrecord, hsame, hback raw record hrecord⟩

end CanonicalV3

end ZoidbergChain
