import ZoidbergChain.CanonicalV3.Fields
import ZoidbergChain.PagedReview.WireCodec

/-!
# What is signed in the review sessions

`verification/review717r/wire.py`: users sign a packed object without its signature, behind a
prefix with its length; validators sign a reading of their clocks.

- `encodeFields_inj`: the fields of a flat schema can be read off their encoding.
- `preimages`: so can the fields of what is signed, and no user signs what a validator signs.
-/

namespace ZoidbergChain

open Python CanonicalV3

namespace PagedReview

namespace Wire

/-! ## Preimages -/

/-- The schema of a purpose. -/
def userSchema (kind : String) : Py Schema :=
  if kind = "OPEN" then .ok .open
  else if kind = "VOTE" then .ok .vote
  else .error (.value "user purpose")

/-- `pack(name, obj)[:-65]`. -/
def packUnsigned (name : Schema) (obj : Value) : Py (List UInt8) := do
  let raw ← pack name obj
  return raw.take (raw.length - 65)

/-- The message that a user signs. -/
def userMessage (kind : String) (unsigned : List UInt8) : List UInt8 :=
  asciiBytes "ZCRJ717R" ++ [0] ++ asciiBytes "user-" ++ asciiBytes kind ++ [0] ++ unsigned

/-- `user_preimage`. -/
def userPreimage (kind : String) (obj : Value) : Py (List UInt8) := do
  let schema ← userSchema kind
  let msg := userMessage kind (← packUnsigned schema obj)
  return [25] ++ asciiBytes "Ethereum Signed Message:\n" ++
    asciiBytes (String.ofList (Nat.toDigits 10 msg.length)) ++ msg

/-- `time_preimage`. -/
def timePreimage (context : Dict) (height parent sequence sample : Value) : Py (List UInt8) := do
  let inContext ← encodeFields ctx context
  let height ← encodeType (.enum .u64) height
  let parent ← encodeType (.raw 32) parent
  let sequence ← encodeType (.enum .u64) sequence
  let sample ← packUnsigned .timeSample sample
  return asciiBytes "ZCRJ717R" ++ [0] ++ asciiBytes "time" ++ [0] ++
    (inContext ++ height ++ parent ++ sequence ++ sample)

/-! ## Flat schemas -/

/-- A type of one piece, of a size that does not depend on the value. -/
def Ty.flat : Ty → Bool
  | .raw _ => true
  | .nid => true
  | .enum _ => true
  | _ => false

theorem encodeFields_append {fields more : List (String × Ty)} {d : Dict} {b : List UInt8} :
    encodeFields (fields ++ more) d = .ok b ↔
      ∃ c e, encodeFields fields d = .ok c ∧ encodeFields more d = .ok e ∧ b = c ++ e := by
  induction fields generalizing b with
  | nil =>
    constructor
    · exact fun h => ⟨[], b, rfl, h, rfl⟩
    · rintro ⟨c, e, hc, he, rfl⟩
      obtain rfl := Except.ok.inj hc
      exact he
  | cons f fields ih =>
    rw [List.cons_append, encodeFields, encodeFields]
    simp only [bind_eq_ok, ih]
    constructor
    · rintro ⟨v, hv, raw, hraw, tail, ⟨c, e, hc, he, rfl⟩, hb⟩
      obtain rfl := Except.ok.inj hb
      exact ⟨raw ++ c, e, ⟨v, hv, raw, hraw, c, hc, rfl⟩, he, by rw [List.append_assoc]⟩
    · rintro ⟨c, e, ⟨v, hv, raw, hraw, tail, htail, hc⟩, he, rfl⟩
      obtain rfl := Except.ok.inj hc
      exact ⟨v, hv, raw, hraw, tail ++ e, ⟨tail, e, htail, he, rfl⟩, by rw [List.append_assoc]⟩

theorem get_of_index {d : Dict} {key : String} {v : Value} (h : d.index key = .ok v) :
    d.get key = v := by
  unfold Dict.index at h
  split at h
  · next w hw =>
    obtain rfl := Except.ok.inj h
    rw [Dict.get_eq, hw]
    rfl
  · cases h

/-- A value of a flat type is read off what it is encoded as. -/
theorem encodeType_inj {t : Ty} (ht : t.flat = true) {v v' : Value} {b b' r r' : List UInt8}
    (h : encodeType t v = .ok b) (h' : encodeType t v' = .ok b') (heq : b ++ r = b' ++ r') :
    v = v' ∧ r = r' := by
  obtain ⟨n, hn⟩ : ∃ n, t.size? = some n := by
    cases t with
    | raw width => exact ⟨width, rfl⟩
    | nid => exact ⟨65, rfl⟩
    | enum e => exact ⟨e.width, rfl⟩
    | _ => cases ht
  have hlength : b.length = b'.length :=
    (length_encodeType hn h).trans (length_encodeType hn h').symm
  obtain ⟨rfl, hr⟩ := List.append_inj heq hlength
  refine ⟨?_, hr⟩
  cases t with
  | raw width =>
    obtain ⟨rfl, -⟩ := hexBytes_eq_ok.mp h
    obtain ⟨rfl, -⟩ := hexBytes_eq_ok.mp h'
    rfl
  | nid =>
    obtain ⟨s, rfl, -, hs⟩ := read_encodeNid h
    obtain ⟨s', rfl, -, hs'⟩ := read_encodeNid h'
    exact (Prod.mk.inj (Except.ok.inj ((hs []).symm.trans (hs' [])))).1
  | enum e =>
    obtain ⟨n, rfl, hlow, hhigh, hb⟩ := encodeEnum_eq_ok.mp h
    obtain ⟨n', rfl, hlow', hhigh', hb'⟩ := encodeEnum_eq_ok.mp h'
    have hread := read_encodeEnum hlow hhigh []
    have hread' := read_encodeEnum hlow' hhigh' []
    rw [← hb] at hread
    rw [← hb'] at hread'
    exact (Prod.mk.inj (Except.ok.inj (hread.symm.trans hread'))).1
  | _ => cases ht

/-- The fields of flat types are read off what they are encoded as. -/
theorem encodeFields_inj {fields : List (String × Ty)} (hflat : ∀ f ∈ fields, f.2.flat = true)
    {d d' : Dict} {b b' r r' : List UInt8} (h : encodeFields fields d = .ok b)
    (h' : encodeFields fields d' = .ok b') (heq : b ++ r = b' ++ r') :
    (∀ f ∈ fields, d.get f.1 = d'.get f.1) ∧ r = r' := by
  induction fields generalizing b b' with
  | nil =>
    obtain rfl := Except.ok.inj h
    obtain rfl := Except.ok.inj h'
    exact ⟨by simp, heq⟩
  | cons f fields ih =>
    obtain ⟨key, t⟩ := f
    obtain ⟨ht, hflat⟩ := List.forall_mem_cons.mp hflat
    rw [encodeFields] at h h'
    obtain ⟨v, hv, h⟩ := bind_eq_ok.mp h
    obtain ⟨raw, hraw, h⟩ := bind_eq_ok.mp h
    obtain ⟨tail, htail, h⟩ := bind_eq_ok.mp h
    obtain rfl := Except.ok.inj h
    obtain ⟨v', hv', h'⟩ := bind_eq_ok.mp h'
    obtain ⟨raw', hraw', h'⟩ := bind_eq_ok.mp h'
    obtain ⟨tail', htail', h'⟩ := bind_eq_ok.mp h'
    obtain rfl := Except.ok.inj h'
    rw [List.append_assoc, List.append_assoc] at heq
    obtain ⟨rfl, hrest⟩ := encodeType_inj ht hraw hraw' heq
    obtain ⟨hsame, hr⟩ := ih hflat htail htail' hrest
    refine ⟨List.forall_mem_cons.mpr ⟨?_, hsame⟩, hr⟩
    rw [get_of_index hv, get_of_index hv']

/-- What is left of a packed object without its signature are its other fields. -/
theorem packUnsigned_eq_ok {name : Schema} {front : List (String × Ty)} {obj : Value}
    {raw : List UInt8} (hfields : name.fields = front ++ [("signature", .raw 65)])
    (h : packUnsigned name obj = .ok raw) :
    ∃ d, obj = .dict d ∧ encodeFields front d = .ok raw := by
  obtain ⟨packed, hpacked, h⟩ := bind_eq_ok.mp h
  obtain rfl := pure_eq_ok.mp h
  cases obj with
  | dict d =>
    rw [pack, Schema.ty, encodeType] at hpacked
    obtain ⟨⟨⟩, -, hpacked⟩ := bind_eq_ok.mp hpacked
    rw [hfields] at hpacked
    obtain ⟨b, s, hb, hs, rfl⟩ := encodeFields_append.mp hpacked
    have hlength : s.length = 65 := length_encodeFields (n := 65) rfl hs
    refine ⟨d, rfl, ?_⟩
    rw [List.length_append, hlength, Nat.add_sub_cancel, List.take_left]
    exact hb
  | _ => cases hpacked

/-- Objects with the same bytes without their signatures have the same other fields. -/
theorem packUnsigned_inj {name : Schema} {front : List (String × Ty)} {obj obj' : Value}
    {raw raw' : List UInt8} (hfields : name.fields = front ++ [("signature", .raw 65)])
    (hflat : ∀ f ∈ front, f.2.flat = true) (h : packUnsigned name obj = .ok raw)
    (h' : packUnsigned name obj' = .ok raw') (heq : raw = raw') :
    ∀ f ∈ name.fields, f.1 ≠ "signature" → obj.field f.1 = obj'.field f.1 := by
  obtain ⟨d, rfl, hd⟩ := packUnsigned_eq_ok hfields h
  obtain ⟨d', rfl, hd'⟩ := packUnsigned_eq_ok hfields h'
  obtain ⟨hsame, -⟩ := @encodeFields_inj _ hflat _ _ _ _ [] [] hd hd' (by rw [heq])
  intro f hf hne
  rw [hfields] at hf
  obtain hf | hf := List.mem_append.mp hf
  · exact hsame f hf
  · obtain rfl := List.mem_singleton.mp hf
    exact absurd rfl hne

/-! ## Lengths in front -/

/-- The byte of a decimal digit. -/
def isDigitByte (b : UInt8) : Bool := 48 ≤ b && b ≤ 57

theorem isDigitByte_toDigits (n : Nat) :
    ∀ b ∈ asciiBytes (String.ofList (Nat.toDigits 10 n)), isDigitByte b = true := by
  intro b hb
  unfold asciiBytes at hb
  rw [String.toList_ofList] at hb
  obtain ⟨c, hc, rfl⟩ := List.mem_map.mp hb
  have hdigit : c.isDigit = true := Nat.isDigit_of_mem_toDigits (by decide) (by decide) hc
  simp only [Char.isDigit, Bool.and_eq_true, decide_eq_true_eq, UInt32.le_iff_toNat_le] at hdigit
  have hlow : 48 ≤ c.toNat := hdigit.1
  have hhigh : c.toNat ≤ 57 := hdigit.2
  unfold isDigitByte
  rw [Bool.and_eq_true, decide_eq_true_eq, decide_eq_true_eq, UInt8.le_iff_toNat_le,
    UInt8.le_iff_toNat_le, UInt8.toNat_ofNat']
  constructor
  · show 48 ≤ c.toNat % 2 ^ 8
    omega
  · show c.toNat % 2 ^ 8 ≤ 57
    omega

/-- A length in front of a message tells where the message starts. -/
theorem message_of_length {m n : Nat} {b b' : UInt8} {r r' : List UInt8}
    (hb : isDigitByte b = false) (hb' : isDigitByte b' = false)
    (heq : asciiBytes (String.ofList (Nat.toDigits 10 m)) ++ b :: r =
      asciiBytes (String.ofList (Nat.toDigits 10 n)) ++ b' :: r') : b :: r = b' :: r' := by
  have hdrop : ∀ (n : Nat) (b : UInt8) (r : List UInt8), isDigitByte b = false →
      (asciiBytes (String.ofList (Nat.toDigits 10 n)) ++ b :: r).dropWhile isDigitByte =
        b :: r := by
    intro n b r hb
    rw [List.dropWhile_append_of_pos (isDigitByte_toDigits n),
      List.dropWhile_cons_of_neg (by simp [hb])]
  rw [← hdrop m b r hb, heq, hdrop n b' r' hb']

/-! ## What is signed -/

theorem userSchema_eq_ok {kind : String} {schema : Schema} (h : userSchema kind = .ok schema) :
    (kind = "OPEN" ∧ schema = .open) ∨ (kind = "VOTE" ∧ schema = .vote) := by
  unfold userSchema at h
  split at h
  · next hopen => exact .inl ⟨hopen, (Except.ok.inj h).symm⟩
  · split at h
    · next hvote => exact .inr ⟨hvote, (Except.ok.inj h).symm⟩
    · cases h

theorem length_kind {kind : String} {schema : Schema} (h : userSchema kind = .ok schema) :
    kind.toList.length = 4 := by
  obtain ⟨rfl, -⟩ | ⟨rfl, -⟩ := userSchema_eq_ok h <;> rfl

theorem kind_of_bytes {kind kind' : String} {schema schema' : Schema}
    (h : userSchema kind = .ok schema) (h' : userSchema kind' = .ok schema')
    (heq : asciiBytes kind = asciiBytes kind') : kind = kind' := by
  obtain ⟨rfl, -⟩ | ⟨rfl, -⟩ := userSchema_eq_ok h <;>
    obtain ⟨rfl, -⟩ | ⟨rfl, -⟩ := userSchema_eq_ok h'
  · rfl
  · exact absurd heq (by decide)
  · exact absurd heq (by decide)
  · rfl

/-- What users sign is flat, with the signature at the end. -/
theorem fields_of_userSchema {kind : String} {schema : Schema}
    (h : userSchema kind = .ok schema) : ∃ front,
      schema.fields = front ++ [("signature", .raw 65)] ∧ ∀ f ∈ front, f.2.flat = true := by
  obtain ⟨-, rfl⟩ | ⟨-, rfl⟩ := userSchema_eq_ok h
  · exact ⟨openFields.dropLast, rfl, by decide⟩
  · exact ⟨voteFields.dropLast, rfl, by decide⟩

/-- The purpose stands at a fixed place of a message. -/
theorem userMessage_inj {kind kind' : String} {b b' : List UInt8}
    (hlength : kind.toList.length = kind'.toList.length)
    (heq : userMessage kind b = userMessage kind' b') :
    asciiBytes kind = asciiBytes kind' ∧ b = b' := by
  unfold userMessage at heq
  simp only [List.append_assoc, List.append_cancel_left_eq] at heq
  obtain ⟨hkind, hrest⟩ := List.append_inj heq (by
    rw [length_asciiBytes, length_asciiBytes, hlength])
  exact ⟨hkind, List.append_cancel_left hrest⟩

theorem userPreimage_inj {kind kind' : String} {obj obj' : Value} {raw : List UInt8}
    (h : userPreimage kind obj = .ok raw) (h' : userPreimage kind' obj' = .ok raw) :
    kind = kind' ∧ ∀ schema, userSchema kind = .ok schema →
      ∀ f ∈ schema.fields, f.1 ≠ "signature" → obj.field f.1 = obj'.field f.1 := by
  obtain ⟨schema, hschema, h⟩ := bind_eq_ok.mp h
  obtain ⟨b, hb, h⟩ := bind_eq_ok.mp h
  obtain ⟨schema', hschema', h'⟩ := bind_eq_ok.mp h'
  obtain ⟨b', hb', h'⟩ := bind_eq_ok.mp h'
  have heq := (pure_eq_ok.mp h).trans (pure_eq_ok.mp h').symm
  simp only [List.append_assoc, List.append_cancel_left_eq] at heq
  have hmessage : userMessage kind b = userMessage kind' b' :=
    @message_of_length _ _ 90 90 _ _ (by decide) (by decide) heq
  obtain ⟨hbytes, hraw⟩ := userMessage_inj
    ((length_kind hschema).trans (length_kind hschema').symm) hmessage
  have hkind := kind_of_bytes hschema hschema' hbytes
  subst hkind
  obtain rfl := Except.ok.inj (hschema.symm.trans hschema')
  obtain ⟨front, hfields, hflat⟩ := fields_of_userSchema hschema
  refine ⟨rfl, fun schema' hschema' => ?_⟩
  obtain rfl := Except.ok.inj (hschema.symm.trans hschema')
  exact packUnsigned_inj hfields hflat hb hb' hraw

/-- The pieces of a time preimage. -/
theorem timePreimage_eq_ok {context : Dict} {height parent sequence sample : Value}
    {raw : List UInt8} (h : timePreimage context height parent sequence sample = .ok raw) :
    ∃ c t p q m, encodeFields ctx context = .ok c ∧ encodeType (.enum .u64) height = .ok t ∧
      encodeType (.raw 32) parent = .ok p ∧ encodeType (.enum .u64) sequence = .ok q ∧
      packUnsigned .timeSample sample = .ok m ∧
      raw = asciiBytes "ZCRJ717R" ++ ([0] ++ (asciiBytes "time" ++ ([0] ++
        (c ++ (t ++ (p ++ (q ++ m))))))) := by
  obtain ⟨c, hc, h⟩ := bind_eq_ok.mp h
  obtain ⟨t, ht, h⟩ := bind_eq_ok.mp h
  obtain ⟨p, hp, h⟩ := bind_eq_ok.mp h
  obtain ⟨q, hq, h⟩ := bind_eq_ok.mp h
  obtain ⟨m, hm, h⟩ := bind_eq_ok.mp h
  refine ⟨c, t, p, q, m, hc, ht, hp, hq, hm, ?_⟩
  rw [← pure_eq_ok.mp h]
  simp only [List.append_assoc]

theorem timePreimage_inj {context context' : Dict}
    {height height' parent parent' sequence sequence' sample sample' : Value} {raw : List UInt8}
    (h : timePreimage context height parent sequence sample = .ok raw)
    (h' : timePreimage context' height' parent' sequence' sample' = .ok raw) :
    (∀ f ∈ ctx, context.get f.1 = context'.get f.1) ∧ height = height' ∧ parent = parent' ∧
      sequence = sequence' ∧ ∀ f ∈ Schema.timeSample.fields, f.1 ≠ "signature" →
        sample.field f.1 = sample'.field f.1 := by
  obtain ⟨c, t, p, q, m, hc, ht, hp, hq, hm, rfl⟩ := timePreimage_eq_ok h
  obtain ⟨c', t', p', q', m', hc', ht', hp', hq', hm', heq⟩ := timePreimage_eq_ok h'
  simp only [List.append_cancel_left_eq] at heq
  obtain ⟨hcontext, heq⟩ := encodeFields_inj (by decide) hc hc' heq
  obtain ⟨rfl, heq⟩ := encodeType_inj rfl ht ht' heq
  obtain ⟨rfl, heq⟩ := encodeType_inj rfl hp hp' heq
  obtain ⟨rfl, heq⟩ := encodeType_inj rfl hq hq' heq
  have hsample := @packUnsigned_inj _ timeSampleFields.dropLast _ _ _ _ rfl (by decide) hm hm' heq
  exact ⟨hcontext, rfl, rfl, rfl, hsample⟩

/-- The fields of what is signed are read off it, and what users sign is told apart from what
validators sign. -/
theorem preimages :
    (∀ kind kind' obj obj' raw, userPreimage kind obj = .ok raw →
      userPreimage kind' obj' = .ok raw →
        kind = kind' ∧ ∀ schema, userSchema kind = .ok schema →
          ∀ f ∈ schema.fields, f.1 ≠ "signature" → obj.field f.1 = obj'.field f.1) ∧
    (∀ context context' height height' parent parent' sequence sequence' sample sample' raw,
      timePreimage context height parent sequence sample = .ok raw →
      timePreimage context' height' parent' sequence' sample' = .ok raw →
        (∀ f ∈ ctx, context.get f.1 = context'.get f.1) ∧ height = height' ∧ parent = parent' ∧
          sequence = sequence' ∧ ∀ f ∈ Schema.timeSample.fields, f.1 ≠ "signature" →
            sample.field f.1 = sample'.field f.1) ∧
    ∀ kind obj context height parent sequence sample raw, userPreimage kind obj = .ok raw →
      timePreimage context height parent sequence sample ≠ .ok raw := by
  refine ⟨fun kind kind' obj obj' raw => userPreimage_inj, ?_, ?_⟩
  · intro context context' height height' parent parent' sequence sequence' sample sample' raw
    exact timePreimage_inj
  · intro kind obj context height parent sequence sample raw huser htime
    obtain ⟨schema, -, huser⟩ := bind_eq_ok.mp huser
    obtain ⟨b, -, huser⟩ := bind_eq_ok.mp huser
    obtain ⟨c, t, p, q, m, -, -, -, -, -, htime⟩ := timePreimage_eq_ok htime
    -- a user preimage starts with a control character, a time preimage with a letter
    have heq := (pure_eq_ok.mp huser).trans htime
    have hhead : some (25 : UInt8) = some 90 := congrArg List.head? heq
    exact absurd hhead (by decide)

namespace SamplePreimage

def digest : Value := .str (hexText (List.replicate 32 7))

def context : Dict :=
  [("network", .str "lab"), ("genesis", digest), ("protocol", .int 1), ("instance", digest),
    ("validators", digest), ("membership", .int 0), ("policy", digest)]

/-- A reading, under a signature. -/
def reading (signature : UInt8) : Value :=
  .dict [("validator", .int 2), ("reading", .int 1000),
    ("signature", .str (hexText (List.replicate 65 signature)))]

end SamplePreimage

open SamplePreimage in
theorem preimages_sample : ∃ raw,
    timePreimage context (.int 1) digest (.int 0) (reading 1) = .ok raw ∧
      timePreimage context (.int 1) digest (.int 0) (reading 2) = .ok raw ∧
        (reading 1).field "reading" = (reading 2).field "reading" := by
  have hsigned : (timePreimage context (.int 1) digest (.int 0) (reading 1)).isOk = true := by
    decide +kernel
  have hsame : timePreimage context (.int 1) digest (.int 0) (reading 1) =
      timePreimage context (.int 1) digest (.int 0) (reading 2) := by
    decide +kernel
  cases hraw : timePreimage context (.int 1) digest (.int 0) (reading 1) with
  | error e =>
    rw [hraw] at hsigned
    cases hsigned
  | ok raw =>
    have hraw' := hsame.symm.trans hraw
    obtain ⟨-, -, -, -, hreading⟩ := preimages.2.1 _ _ _ _ _ _ _ _ _ _ _ hraw hraw'
    exact ⟨raw, rfl, hraw', hreading ("reading", .enum .u64) (by simp [Schema.fields,
      timeSampleFields]) (by decide)⟩

end Wire

end PagedReview

end ZoidbergChain
