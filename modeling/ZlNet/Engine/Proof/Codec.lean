import ZlNet.Engine.Serializes

/-! The bytes of a value: what `Serialize` writes for it, and that it is read back from them.  A value
that is read, from whatever bytes, has no more bytes than were read for it. -/

namespace ZlNet.Engine

open Network Lib Lib.Word Lib.Bytes

variable {α : Type}

def encodeString (value : List UInt8) : List UInt8 := toBe 4 value.length ++ value

/-- A number of elements, and the elements. -/
def encodeElements (encode : α → List UInt8) (elems : List α) : List UInt8 :=
  toBe 4 elems.length ++ elems.flatMap encode

/-- The bytes that a value is sent as. -/
def Ty.encode : (t : Ty) → t.Val → List UInt8
  | .int k, value => toBe k.scalar.size (k.scalar.bits value)
  | .string, value => encodeString value
  | .vector t, vec => encodeElements t.encode vec
  | .map k v, m => encodeElements (fun e => k.encode (ofLex e).1 ++ v.encode (ofLex e).2) m.toList
  | .set t, s => encodeElements t.encode s.toList

def encodeAll : (ts : List Ty) → Vals ts → List UInt8
  | [], _ => []
  | t :: ts, (value, values) => t.encode value ++ encodeAll ts values

/-- The number of elements fits an `int32`, and each element is small. -/
def SmallElements (small : α → Prop) (elems : List α) : Prop :=
  elems.length < 2 ^ 31 ∧ ∀ a ∈ elems, small a

/-- The numbers of elements and of bytes in a value fit an `int32`. -/
def Ty.Small : (t : Ty) → t.Val → Prop
  | .int _, _ => True
  | .string, value => List.length value < 2 ^ 31
  | .vector t, vec => SmallElements t.Small vec
  | .map k v, m => SmallElements (fun e => k.Small (ofLex e).1 ∧ v.Small (ofLex e).2) m.toList
  | .set t, s => SmallElements t.Small s.toList

def SmallAll : (ts : List Ty) → Vals ts → Prop
  | [], _ => True
  | t :: ts, (value, values) => t.Small value ∧ SmallAll ts values

/-! ### The length of what is sent -/

section Length

theorem prefixed_pos (n : Nat) (bytes : List UInt8) : 0 < (toBe 4 n ++ bytes).length := by
  rw [List.length_append, toBe_length]
  omega

theorem Ty.encode_pos (t : Ty) (value : t.Val) : 0 < (t.encode value).length := by
  cases t with
  | int k =>
    rw [Ty.encode, toBe_length]
    exact k.scalar.size_pos
  | string => exact prefixed_pos _ _
  | vector t => exact prefixed_pos _ _
  | map k v => exact prefixed_pos _ _
  | set t => exact prefixed_pos _ _

theorem length_le_flatMap {encode : α → List UInt8} (hpos : ∀ a, 0 < (encode a).length)
    (elems : List α) : elems.length ≤ (elems.flatMap encode).length := by
  induction elems with
  | nil => simp
  | cons a elems ih =>
    have := hpos a
    rw [List.flatMap_cons, List.length_append, List.length_cons]
    omega

theorem encodeElements_length (encode : α → List UInt8) (elems : List α) :
    (encodeElements encode elems).length = 4 + (elems.flatMap encode).length := by
  rw [encodeElements, List.length_append, toBe_length]

/-- Elements that take less than `2^31` bytes are fewer, and each takes less. -/
theorem elements_small {encode : α → List UInt8} (hpos : ∀ a, 0 < (encode a).length)
    {elems : List α} (hlt : (encodeElements encode elems).length < 2 ^ 31) :
    elems.length < 2 ^ 31 ∧ ∀ a ∈ elems, (encode a).length < 2 ^ 31 := by
  rw [encodeElements_length] at hlt
  have hcount := length_le_flatMap hpos elems
  refine ⟨by omega, fun a ha => ?_⟩
  have hle := (List.sublist_flatten_of_mem (List.mem_map_of_mem (f := encode) ha)).length_le
  rw [← List.flatMap_def] at hle
  omega

theorem string_small {value : List UInt8} (hlt : (encodeString value).length < 2 ^ 31) :
    value.length < 2 ^ 31 := by
  rw [encodeString, List.length_append] at hlt
  omega

theorem Ty.small_of_length (t : Ty) (value : t.Val) (hlt : (t.encode value).length < 2 ^ 31) :
    t.Small value := by
  induction t with
  | int k => trivial
  | string => exact string_small hlt
  | vector t ih =>
    obtain ⟨hcount, helems⟩ := elements_small t.encode_pos hlt
    exact ⟨hcount, fun a ha => ih a (helems a ha)⟩
  | map k v ihk ihv =>
    obtain ⟨hcount, helems⟩ := elements_small (fun e => by
      have := k.encode_pos (ofLex e).1
      rw [List.length_append]
      omega) hlt
    refine ⟨hcount, fun e he => ?_⟩
    have hlt := helems e he
    rw [List.length_append] at hlt
    exact ⟨ihk _ (by omega), ihv _ (by omega)⟩
  | set t ih =>
    obtain ⟨hcount, helems⟩ := elements_small t.encode_pos hlt
    exact ⟨hcount, fun a ha => ih a (helems a ha)⟩

/-- What takes less than `2^31` bytes is small. -/
theorem smallAll_of_length (ts : List Ty) (values : Vals ts)
    (hlt : (encodeAll ts values).length < 2 ^ 31) : SmallAll ts values := by
  induction ts with
  | nil => trivial
  | cons t ts ih =>
    obtain ⟨value, values⟩ := values
    rw [encodeAll, List.length_append] at hlt
    exact ⟨t.small_of_length value (by omega), ih values (by omega)⟩

end Length

/-! ### Writing -/

section Write

variable {host : Endian} {w : Buffer.Writer}

theorem toBe_ofNat (n : Nat) : toBe 4 (Scalar.int32.bits (Int32.ofNat n)) = toBe 4 n := by
  have hbits : Scalar.int32.bits (Int32.ofNat n) = n % 256 ^ 4 := by
    show (BitVec.ofNat 32 n).toNat = _
    rw [BitVec.toNat_ofNat]
    rfl
  conv_rhs => rw [← Nat.div_add_mod n (256 ^ 4), Nat.mul_comm, toBe_add_mul]
  rw [hbits]

theorem writeLength_appends (n : Nat) (h : w.AtEnd) (hfit : w.pos + 4 < 2 ^ 32) :
    w.Appends (toBe 4 n) (w.writeInt32 host (Int32.ofNat n)) := by
  rw [← toBe_ofNat]
  exact Buffer.Writer.writeScalar_appends .int32 (Int32.ofNat n) h hfit

theorem IntType.write_appends (k : IntType) (value : k.scalar.T) (h : w.AtEnd)
    (hfit : w.pos + k.scalar.size < 2 ^ 32) :
    w.Appends (toBe k.scalar.size (k.scalar.bits value)) (k.write host w value) := by
  cases k <;> exact Buffer.Writer.writeScalar_appends _ value h hfit

/-- Where a writer is that has written `bytes`. -/
theorem pos_of_content {w' : Buffer.Writer} {bytes : List UInt8} (h : w.AtEnd) (h' : w'.AtEnd)
    (hcontent : w'.buf.content = w.buf.content ++ bytes) : w'.pos = w.pos + bytes.length := by
  rw [h', h, Buffer.size, Buffer.size, hcontent, List.length_append]

theorem foldlM_appends {encode : α → List UInt8}
    {elem : Buffer.Writer → α → Except Fault Buffer.Writer}
    (helem : ∀ (w : Buffer.Writer) a, w.AtEnd → w.pos + (encode a).length < 2 ^ 32 →
      w.Appends (encode a) (elem w a)) (elems : List α) (h : w.AtEnd)
    (hfit : w.pos + (elems.flatMap encode).length < 2 ^ 32) :
    w.Appends (elems.flatMap encode) (elems.foldlM elem w) := by
  induction elems generalizing w with
  | nil => exact ⟨w, rfl, (List.append_nil _).symm, h⟩
  | cons a elems ih =>
    rw [List.flatMap_cons, List.length_append] at hfit
    rw [List.flatMap_cons, List.foldlM_cons]
    refine (helem w a h (by omega)).bind fun w' hcontent hend => ?_
    have hpos := pos_of_content h hend hcontent
    exact ih hend (by omega)

theorem writeElements_appends {encode : α → List UInt8}
    {elem : Buffer.Writer → α → Except Fault Buffer.Writer}
    (helem : ∀ (w : Buffer.Writer) a, w.AtEnd → w.pos + (encode a).length < 2 ^ 32 →
      w.Appends (encode a) (elem w a)) (elems : List α) (h : w.AtEnd)
    (hfit : w.pos + (encodeElements encode elems).length < 2 ^ 32) :
    w.Appends (encodeElements encode elems) (writeElements host elem w elems) := by
  rw [encodeElements, List.length_append, toBe_length] at hfit
  refine (writeLength_appends elems.length h (by omega)).bind fun w' hcontent hend => ?_
  have hpos := pos_of_content h hend hcontent
  rw [toBe_length] at hpos
  exact foldlM_appends helem elems hend (by omega)

theorem writeString_appends (value : List UInt8) (h : w.AtEnd)
    (hfit : w.pos + (encodeString value).length < 2 ^ 32) :
    w.Appends (encodeString value) (writeString host w value) := by
  rw [encodeString, List.length_append, toBe_length] at hfit
  have hlen : (Int32.ofNat value.length).toUInt32.toNat = value.length := by
    show (BitVec.ofNat 32 value.length).toNat = _
    rw [BitVec.toNat_ofNat, Nat.mod_eq_of_lt (by omega)]
  refine (writeLength_appends value.length h (by omega)).bind fun w' hcontent hend => ?_
  have hpos := pos_of_content h hend hcontent
  rw [toBe_length] at hpos
  rw [hlen, List.take_length]
  exact Buffer.Writer.writeBytes_appends hend (by omega)

theorem Ty.write_appends (t : Ty) (value : t.Val) (h : w.AtEnd)
    (hfit : w.pos + (t.encode value).length < 2 ^ 32) :
    w.Appends (t.encode value) (t.write host w value) := by
  induction t generalizing w with
  | int k => exact k.write_appends value h (by simpa [Ty.encode] using hfit)
  | string => exact writeString_appends value h hfit
  | vector t ih => exact writeElements_appends (fun w a h hfit => ih a h hfit) value h hfit
  | map k v ihk ihv =>
    refine writeElements_appends (fun w e h hfit => ?_) value.toList h hfit
    rw [List.length_append] at hfit
    refine (ihk (ofLex e).1 h (by omega)).bind fun w' hcontent hend => ?_
    have hpos := pos_of_content h hend hcontent
    exact ihv (ofLex e).2 hend (by omega)
  | set t ih => exact writeElements_appends (fun w a h hfit => ih a h hfit) value.toList h hfit

theorem writeAll_appends (host : Endian) (ts : List Ty) (values : Vals ts) (h : w.AtEnd)
    (hfit : w.pos + (encodeAll ts values).length < 2 ^ 32) :
    w.Appends (encodeAll ts values) (writeAll host ts w values) := by
  induction ts generalizing w with
  | nil => exact ⟨w, rfl, (List.append_nil _).symm, h⟩
  | cons t ts ih =>
    obtain ⟨value, values⟩ := values
    rw [encodeAll, List.length_append] at hfit
    refine (t.write_appends value h (by omega)).bind fun w' hcontent hend => ?_
    have hpos := pos_of_content h hend hcontent
    exact ih values hend (by omega)

end Write

/-! ### Reading back -/

section Read

variable {β γ : Type} {c : List UInt8} {p q : Nat} {x : Read β} {b : β}

/-- The bytes of `c` from `p` on start with `bytes`. -/
def At (c : List UInt8) (p : Nat) (bytes : List UInt8) : Prop := bytes <+: c.drop p

theorem At.append {bytes bytes' : List UInt8} (h : At c p (bytes ++ bytes')) :
    At c p bytes ∧ At c (p + bytes.length) bytes' := by
  obtain ⟨rest, hrest⟩ := h
  refine ⟨⟨bytes' ++ rest, by rw [← hrest, List.append_assoc]⟩, rest, ?_⟩
  rw [← List.drop_drop, ← hrest, List.append_assoc, List.drop_left]

theorem At.le {bytes : List UInt8} (h : At c p bytes) (hpos : 0 < bytes.length) :
    p + bytes.length ≤ c.length := by
  have hle := h.length_le
  rw [List.length_drop] at hle
  omega

theorem At.take {bytes : List UInt8} (h : At c p bytes) {n : Nat} (hn : n = bytes.length) :
    (c.drop p).take n = bytes := by
  obtain ⟨rest, hrest⟩ := h
  rw [← hrest, hn, List.take_left]

/-- A call returns the value `b`, with the reader at `q`. -/
structure Gives (c : List UInt8) (q : Nat) (b : β) (x : Read β) : Prop where
  target : x.target = b
  reader : x.reader = ⟨c, q⟩
  stop : x.stop = none

theorem Gives.map (h : Gives c q b x) (f : β → γ) : Gives c q (f b) (x.map f) :=
  ⟨congrArg f h.target, h.reader, h.stop⟩

theorem Gives.andThen {old d : γ} {q' : Nat} {f : β → BufferReader → Read γ} (h : Gives c q b x)
    (hf : Gives c q' d (f b ⟨c, q⟩)) : Gives c q' d (x.andThen old f) := by
  obtain ⟨rfl, hreader, hstop⟩ := h
  simp only [Read.andThen, hstop, hreader]
  exact ⟨hf.target, hf.reader, hf.stop⟩

variable {host : Endian}

theorem readScalar_gives {s : Scalar} (site : Site) (hlt : c.length < 2 ^ 32) {value : s.T}
    (old : s.T) (h : At c p (toBe s.size (s.bits value))) :
    Gives c (p + s.size) value (.into old ⟨c, p⟩ (BufferReader.readScalar ⟨c, p⟩ host s site)) := by
  have hfit := h.le (by rw [toBe_length]; exact s.size_pos)
  rw [toBe_length] at hfit
  have hread := BufferReader.readScalar_eq (r := ⟨c, p⟩) host s site hfit
    hlt
  rw [h.take (toBe_length _ _).symm, ofBe_toBe (s.bits_lt value), s.ofBits_bits] at hread
  rw [hread]
  exact ⟨rfl, rfl, rfl⟩

theorem withLength_gives {n : Nat} {old : β} {f : Int32 → BufferReader → Read β}
    (hlt : c.length < 2 ^ 32) (h : At c p (toBe 4 n))
    (hf : Gives c q b (f (Int32.ofNat n) ⟨c, p + 4⟩)) : Gives c q b (withLength host ⟨c, p⟩ old f) := by
  rw [← toBe_ofNat] at h
  exact (readScalar_gives (s := .int32) .readInt32 hlt (0 : Int32) h).andThen hf

theorem toInt_ofNat {n : Nat} (h : n < 2 ^ 31) : (Int32.ofNat n).toInt = n :=
  Int32.toInt_ofNat_of_lt h

theorem loop_gives (encode : α → List UInt8) (body : Nat → BufferReader → β → Read β)
    (left : Nat) (all : List α) (State : List α → β → Prop)
    (hbody : ∀ done a rest, all = done ++ a :: rest → ∀ p b, At c p (encode a) → State done b →
      ∃ b', State (done ++ [a]) b' ∧
        Gives c (p + (encode a).length) b' (body done.length ⟨c, p⟩ b))
    (done rest : List α) (hall : all = done ++ rest) {b : β} (hb : State done b)
    (hat : At c p (rest.flatMap encode)) :
    ∃ b', State all b' ∧ Gives c (p + (rest.flatMap encode).length) b'
      (loop body none left rest.length done.length ⟨c, p⟩ b) := by
  induction rest generalizing done p b with
  | nil =>
    rw [List.append_nil] at hall
    exact ⟨b, hall ▸ hb, rfl, rfl, rfl⟩
  | cons a rest ih =>
    rw [List.flatMap_cons] at hat
    obtain ⟨hhead, htail⟩ := hat.append
    obtain ⟨b', hb', htarget, hreader, hstop⟩ := hbody done a rest hall p b hhead hb
    obtain ⟨b'', hb'', hrest⟩ := ih (done ++ [a]) (by rw [hall, List.append_assoc]; rfl) hb' htail
    rw [List.length_append, List.length_singleton] at hrest
    refine ⟨b'', hb'', ?_⟩
    simp only [List.length_cons, loop, hstop, hreader, htarget]
    rw [List.flatMap_cons, List.length_append, ← Nat.add_assoc]
    exact ⟨hrest.target, hrest.reader, hrest.stop⟩

theorem serializeVector_gives [Inhabited α] {encode : α → List UInt8}
    {elem : BufferReader → α → Read α} (hlt : c.length < 2 ^ 32) (vec old : List α)
    (hcount : vec.length < 2 ^ 31)
    (helem : ∀ a ∈ vec, ∀ p old, At c p (encode a) →
      Gives c (p + (encode a).length) a (elem ⟨c, p⟩ old))
    (hat : At c p (encodeElements encode vec)) :
    Gives c (p + (encodeElements encode vec).length) vec
      (serializeVector host (fun _ => true) elem ⟨c, p⟩ old) := by
  obtain ⟨hlength, helems⟩ := hat.append
  rw [toBe_length] at helems
  refine withLength_gives hlt hlength ?_
  have hloop := loop_gives encode
    (fun i r (v : List α) => (elem r (v.getD i default)).map (v.set i)) (c.length - (p + 4)) vec
    (fun done v => v = done ++ List.replicate (vec.length - done.length) default)
    (fun done a rest hall p b hat hb => ?_) [] vec rfl rfl helems
  · obtain ⟨b, hb, hgives⟩ := hloop
    rw [Nat.sub_self, List.replicate_zero, List.append_nil] at hb
    subst hb
    simp only [toInt_ofNat hcount, Int.toNat_natCast]
    rw [encodeElements, List.length_append, toBe_length, ← Nat.add_assoc]
    exact hgives
  · refine ⟨_, rfl, ?_⟩
    have hroom : vec.length - done.length = vec.length - (done ++ [a]).length + 1 := by
      rw [hall]
      simp
      omega
    have hset : done ++ [a] ++ List.replicate (vec.length - (done ++ [a]).length) default =
        b.set done.length a := by
      rw [hb, hroom, List.replicate_succ, List.set_append_right _ _ (Nat.le_refl _), Nat.sub_self,
        List.set_cons_zero, List.append_assoc]
      rfl
    rw [hset]
    exact (helem a (by simp [hall]) p _ hat).map (b.set done.length)

/-- A loop that counts down and inserts elements in ascending order. -/
theorem counted_gives {κ : Type} [LinearOrder κ] {key : α → κ} {encode : α → List UInt8}
    {body : BufferReader → Ascending key → Read (Ascending key)} (hlt : c.length < 2 ^ 32)
    (m : Ascending key) (hcount : m.toList.length < 2 ^ 31)
    (hbody : ∀ a ∈ m.toList, ∀ p m, At c p (encode a) →
      Gives c (p + (encode a).length) (m.insert a) (body ⟨c, p⟩ m))
    (hat : At c p (encodeElements encode m.toList)) :
    Gives c (p + (encodeElements encode m.toList).length) m
      (withLength host ⟨c, p⟩ default fun len r => countdown body len.toInt r default) := by
  obtain ⟨hlength, helems⟩ := hat.append
  rw [toBe_length] at helems
  refine withLength_gives hlt hlength ?_
  obtain ⟨b, hb, hgives⟩ := loop_gives encode (fun _ => body) (c.length - (p + 4))
    m.toList (fun done (b : Ascending key) => b.toList = done)
    (fun done a rest hall p b hat hb => by
      refine ⟨b.insert a, ?_, hbody a (by simp [hall]) p b hat⟩
      -- the elements read before `a` are below it in the map that was sent
      have hbelow : ∀ d ∈ b.toList, key d < key a := by
        have hasc := m.ascending
        rw [hall, List.pairwise_append] at hasc
        exact fun d hd => hasc.2.2 d (hb ▸ hd) a List.mem_cons_self
      show Ascending.insertInto key a b.toList = done ++ [a]
      rw [Ascending.insertInto_last hbelow, hb]) [] m.toList rfl
    (Ascending.default_toList (ε := α)) helems
  obtain rfl : b = m := Ascending.ext hb
  simp only [countdown, toInt_ofNat hcount, Int.toNat_natCast, Int.natCast_nonneg, ite_true]
  rw [encodeElements, List.length_append, toBe_length, ← Nat.add_assoc]
  exact hgives

theorem serializeString_gives (hlt : c.length < 2 ^ 32) (value old : List UInt8)
    (hcount : value.length < 2 ^ 31) (hat : At c p (encodeString value)) :
    Gives c (p + (encodeString value).length) value (serializeString host ⟨c, p⟩ old) := by
  have hle := hat.le (prefixed_pos _ _)
  obtain ⟨hlength, hbytes⟩ := hat.append
  rw [encodeString, List.length_append, toBe_length] at hle ⊢
  rw [toBe_length] at hbytes
  refine withLength_gives hlt hlength ?_
  have hsize : (Int32.ofNat value.length).toUInt32.toNat = value.length := by
    show (BitVec.ofNat 32 value.length).toNat = _
    rw [BitVec.toNat_ofNat, Nat.mod_eq_of_lt (by omega)]
  have hsum : add32 (p + 4) value.length = p + 4 + value.length := add32_eq (by omega)
  have hptr : readPtr c (p + 4) value.length = some (p + 4) := by
    have hnot : ¬c.length < p + 4 + value.length := by omega
    simp only [readPtr, hsum, hnot, ite_false]
  have hcopy : copyOut c (p + 4) value.length = .ok value := by
    rw [copyOut_of_le (by omega), hbytes.take rfl]
  have hneg : ¬(value.length : Int) < 0 := by omega
  simp only [BufferReader.read, hsize, hptr, hsum, append, toInt_ofNat hcount, Int.toNat_natCast,
    hcopy, hneg, ite_false]
  exact ⟨rfl, by rw [← Nat.add_assoc], rfl⟩

/-- Memory for any number of elements. -/
def unlimited : Ty → Nat → Bool := fun _ _ => true

/-- A value is read back from the bytes that are written for it. -/
theorem Ty.serialize_gives (hlt : c.length < 2 ^ 32) (t : Ty) (value old : t.Val)
    (hsmall : t.Small value) (hat : At c p (t.encode value)) :
    Gives c (p + (t.encode value).length) value (t.serialize host unlimited ⟨c, p⟩ old) := by
  induction t generalizing p with
  | int k =>
    obtain ⟨host', site, hread⟩ := k.read_eq host ⟨c, p⟩
    simp only [Ty.serialize, hread, Ty.encode, toBe_length] at hat ⊢
    exact readScalar_gives site hlt old hat
  | string => exact serializeString_gives hlt value old hsmall hat
  | vector t ih =>
    obtain ⟨hcount, hsmall⟩ := hsmall
    exact serializeVector_gives hlt value old hcount
      (fun a ha p old hat => ih a old (hsmall a ha) hat) hat
  | map k v ihk ihv =>
    obtain ⟨hcount, hsmall⟩ := hsmall
    refine counted_gives hlt value hcount (fun e he p m hat => ?_) hat
    obtain ⟨hk, hv⟩ := hsmall e he
    obtain ⟨hkey, hvalue⟩ := hat.append
    rw [List.length_append, ← Nat.add_assoc]
    have hread := (ihv (ofLex e).2 (OrderedMap.get m (ofLex e).1) hv hvalue).map fun v =>
      m.insert (toLex ((ofLex e).1, v))
    exact (ihk (ofLex e).1 default hk hkey).andThen hread
  | set t ih =>
    obtain ⟨hcount, hsmall⟩ := hsmall
    refine counted_gives hlt value hcount (fun a ha p s hat => ?_) hat
    exact (ih a default (hsmall a ha) hat).andThen ⟨rfl, rfl, rfl⟩

theorem serializeAll_gives (host : Endian) (hlt : c.length < 2 ^ 32) (ts : List Ty)
    (values old : Vals ts) (hsmall : SmallAll ts values) (hat : At c p (encodeAll ts values)) :
    Gives c (p + (encodeAll ts values).length) values
      (serializeAll host unlimited ts ⟨c, p⟩ old) := by
  induction ts generalizing p with
  | nil => exact ⟨rfl, rfl, rfl⟩
  | cons t ts ih =>
    obtain ⟨value, values⟩ := values
    obtain ⟨old, olds⟩ := old
    obtain ⟨hvalue, hvalues⟩ := hat.append
    rw [encodeAll, List.length_append, ← Nat.add_assoc]
    have hread := (ih values olds hsmall.2 hvalues).map fun values => (value, values)
    let x := t.serialize host unlimited ⟨c, p⟩ old
    have hthen : Gives c (p + (t.encode value).length + (encodeAll ts values).length) (value, values)
        (x.andThen (x.target, olds) fun value r =>
          (serializeAll host unlimited ts r olds).map fun values => (value, values)) :=
      (t.serialize_gives hlt value old hsmall.1 hvalue).andThen hread
    exact hthen

end Read

/-! ### What a value takes -/

section Post

variable {β γ : Type} {c : List UInt8} {p : Nat} {x : Read β} {P P' : β → Nat → Prop}

/-- If the call returns, `P` holds of its target and of where it leaves the reader. -/
def Post (c : List UInt8) (P : β → Nat → Prop) (x : Read β) : Prop :=
  x.stop = none → ∃ q ≤ c.length, x.reader = ⟨c, q⟩ ∧ P x.target q

theorem Post.of_stop {s : Abort} (h : x.stop = some s) : Post c P x := by
  intro hstop
  rw [h] at hstop
  cases hstop

theorem Post.mono (h : Post c P x) (hP : ∀ b q, P b q → P' b q) : Post c P' x := by
  intro hstop
  obtain ⟨q, hq, hreader, hpost⟩ := h hstop
  exact ⟨q, hq, hreader, hP _ _ hpost⟩

theorem Post.map {Q : γ → Nat → Prop} (h : Post c P x) (f : β → γ)
    (hf : ∀ b q, P b q → Q (f b) q) : Post c Q (x.map f) := by
  intro hstop
  obtain ⟨q, hq, hreader, hpost⟩ := h hstop
  exact ⟨q, hq, hreader, hf _ _ hpost⟩

theorem Post.andThen {Q : γ → Nat → Prop} {old : γ} {f : β → BufferReader → Read γ}
    (h : Post c P x) (hf : ∀ b, ∀ q ≤ c.length, P b q → Post c Q (f b ⟨c, q⟩)) :
    Post c Q (x.andThen old f) := by
  cases hx : x.stop with
  | none =>
    obtain ⟨q, hq, hreader, hpost⟩ := h hx
    simp only [Read.andThen, hx, hreader]
    exact hf x.target q hq hpost
  | some s =>
    refine .of_stop (s := s) ?_
    simp only [Read.andThen, hx]

/-- A loop that keeps an invariant. -/
theorem Post.loop (body : Nat → BufferReader → β → Read β) (left n : Nat)
    (Inv : Nat → β → Nat → Prop)
    (hbody : ∀ i < n, ∀ b, ∀ q ≤ c.length, Inv i b q → Post c (Inv (i + 1)) (body i ⟨c, q⟩ b))
    {m i : Nat} (hmi : i + m = n) (hp : p ≤ c.length) {b : β} (hb : Inv i b p) :
    Post c (Inv n) (loop body none left m i ⟨c, p⟩ b) := by
  induction m generalizing i p b with
  | zero =>
    obtain rfl : i = n := hmi
    exact fun _ => ⟨p, hp, rfl, hb⟩
  | succ m ih =>
    cases hx : (body i ⟨c, p⟩ b).stop with
    | none =>
      obtain ⟨q, hq, hreader, hinv⟩ := hbody i (by omega) b p hp hb hx
      simp only [Engine.loop, hx, hreader]
      exact ih (by omega) hq hinv
    | some s =>
      refine .of_stop (s := s) ?_
      simp only [Engine.loop, hx]

theorem loop_ends (body : Nat → BufferReader → β → Read β) (s : Abort) (left n i : Nat)
    (r : BufferReader) (b : β) : ∃ s', (loop body (some s) left n i r b).stop = some s' := by
  induction n generalizing i r b with
  | zero => exact ⟨s, rfl⟩
  | succ n ih =>
    cases hx : (body i r b).stop with
    | none =>
      simp only [loop, hx]
      exact ih _ _ _
    | some s' => exact ⟨s', by simp only [loop, hx]⟩

variable {host : Endian}

theorem readScalar_post {s : Scalar} (site : Site) (hlt : c.length < 2 ^ 31) (old : s.T) :
    Post c (fun _ q => p + s.size = q)
      (.into old ⟨c, p⟩ (BufferReader.readScalar ⟨c, p⟩ host s site)) := by
  by_cases hfit : p + s.size ≤ c.length
  · have hread := BufferReader.readScalar_eq (r := ⟨c, p⟩) host s site hfit
      (Nat.lt_trans hlt (by decide))
    rw [hread]
    exact fun _ => ⟨p + s.size, hfit, rfl, rfl⟩
  · obtain ⟨f, hf⟩ := BufferReader.readScalar_fault (r := ⟨c, p⟩) host s site
      (Nat.lt_of_not_le hfit)
    rw [hf]
    exact .of_stop (s := .fault f) rfl

theorem withLength_post (hlt : c.length < 2 ^ 31) {old : β} {f : Int32 → BufferReader → Read β}
    (hf : p + 4 ≤ c.length → ∀ len, Post c P (f len ⟨c, p + 4⟩)) :
    Post c P (withLength host ⟨c, p⟩ old f) := by
  refine (readScalar_post (s := .int32) .readInt32 hlt (0 : Int32)).andThen
    fun len q hq hpos => ?_
  subst hpos
  exact hf hq len

theorem serializeString_post (hlt : c.length < 2 ^ 31) (old : List UInt8) :
    Post c (fun value q => p + (encodeString value).length ≤ q)
      (serializeString host ⟨c, p⟩ old) := by
  refine withLength_post hlt fun hfit len => ?_
  simp only [BufferReader.read]
  generalize hsize : len.toUInt32.toNat = size
  by_cases hnull : c.length < add32 (p + 4) size
  · simp only [readPtr, hnull, ite_true, append]
    exact .of_stop (s := .fault .nullPointer) rfl
  · simp only [readPtr, hnull, ite_false, append]
    split
    · exact .of_stop (s := .exception) rfl
    · rename_i hneg
      have hsize' : size = len.toInt.toNat := by
        have hle := len.toInt_lt
        rw [← hsize, toUInt32_toNat]
        unfold ofInt32
        omega
      by_cases hfit' : p + 4 + len.toInt.toNat ≤ c.length
      · have hsum : add32 (p + 4) size = p + 4 + len.toInt.toNat := by
          rw [hsize', add32_eq (by omega)]
        rw [copyOut_of_le hfit', hsum]
        refine fun _ => ⟨_, hfit', rfl, ?_⟩
        simp only [encodeString, List.length_append, toBe_length, List.length_take,
          List.length_drop]
        omega
      · rw [copyOut_of_lt (Nat.lt_of_not_le hfit')]
        exact .of_stop (s := .fault .outOfBounds) rfl

theorem serializeVector_post [Inhabited α] {encode : α → List UInt8} {grants : Nat → Bool}
    {elem : BufferReader → α → Read α} (hlt : c.length < 2 ^ 31)
    (helem : ∀ p ≤ c.length, ∀ old, Post c (fun a q => p + (encode a).length ≤ q)
      (elem ⟨c, p⟩ old)) (old : List α) :
    Post c (fun vec q => p + (encodeElements encode vec).length ≤ q)
      (serializeVector host grants elem ⟨c, p⟩ old) := by
  refine withLength_post hlt fun hfit len => ?_
  split
  · exact .of_stop (s := .exception) rfl
  · have hloop := Post.loop (c := c) (p := p + 4) (i := 0)
      (fun i r (v : List α) => (elem r (v.getD i default)).map (v.set i)) (c.length - (p + 4))
      len.toInt.toNat
      (fun i vec q => vec.length = len.toInt.toNat ∧
        p + 4 + ((vec.take i).flatMap encode).length ≤ q)
      (fun i hi vec q hq hinv => ?_) (Nat.zero_add _) hfit
      (b := List.replicate len.toInt.toNat default) ⟨List.length_replicate, by simp⟩
    · refine hloop.mono fun vec q ⟨hlen, hle⟩ => ?_
      rw [← hlen, List.take_length] at hle
      rw [encodeElements_length]
      omega
    · obtain ⟨hlen, hle⟩ := hinv
      refine (helem q hq _).map _ fun a q' ha => ⟨by rw [List.length_set, hlen], ?_⟩
      have hi' : i < vec.length := hlen ▸ hi
      have htake : (vec.set i a).take (i + 1) = vec.take i ++ [a] := by
        rw [List.set_eq_take_append_cons_drop, if_pos hi', List.append_cons]
        exact List.take_left' (by simp; omega)
      rw [htake, List.flatMap_append, List.length_append, List.flatMap_singleton]
      omega

/-- Inserting an element adds no more than its bytes. -/
theorem insertInto_length {κ : Type} [LinearOrder κ] (key : α → κ) (encode : α → List UInt8) (a : α)
    (l : List α) : ((Ascending.insertInto key a l).flatMap encode).length ≤
      (l.flatMap encode).length + (encode a).length := by
  induction l with
  | nil => simp [Ascending.insertInto]
  | cons b l ih =>
    unfold Ascending.insertInto
    split
    · simp only [List.flatMap_cons, List.length_append]
      omega
    · split
      · simp only [List.flatMap_cons, List.length_append]
        omega
      · simp only [List.flatMap_cons, List.length_append]
        omega

theorem counted_post {κ : Type} [LinearOrder κ] {key : α → κ} {encode : α → List UInt8}
    {body : BufferReader → Ascending key → Read (Ascending key)} (hlt : c.length < 2 ^ 31)
    (hbody : ∀ p ≤ c.length, ∀ m : Ascending key, Post c (fun m' q =>
      p + (m'.toList.flatMap encode).length ≤ q + (m.toList.flatMap encode).length)
      (body ⟨c, p⟩ m)) :
    Post c (fun m q => p + (encodeElements encode m.toList).length ≤ q)
      (withLength host ⟨c, p⟩ default fun len r => countdown body len.toInt r default) := by
  refine withLength_post hlt fun hfit len => ?_
  unfold countdown
  split
  · have hloop := Post.loop (c := c) (p := p + 4) (i := 0) (fun _ => body) (c.length - (p + 4))
      len.toInt.toNat
      (fun _ (m : Ascending key) q => p + 4 + (m.toList.flatMap encode).length ≤ q)
      (fun i _ m q hq hinv => (hbody q hq m).mono fun m' q' h => by omega) (Nat.zero_add _) hfit
      (b := default) (by simp)
    refine hloop.mono fun m q hle => ?_
    rw [encodeElements_length]
    omega
  · obtain ⟨s, hs⟩ := loop_ends (fun _ => body) (.fault .overflow) (c.length - (p + 4))
      ((len.toInt + 2 ^ 31).toNat + 1) 0 ⟨c, p + 4⟩ default
    exact .of_stop hs

/-- A value that is read has no more bytes than were read for it. -/
theorem Ty.serialize_post {grants : Ty → Nat → Bool} (hlt : c.length < 2 ^ 31) (t : Ty)
    (hp : p ≤ c.length) (old : t.Val) :
    Post c (fun value q => p + (t.encode value).length ≤ q)
      (t.serialize host grants ⟨c, p⟩ old) := by
  induction t generalizing p with
  | int k =>
    obtain ⟨host', site, hread⟩ := k.read_eq host ⟨c, p⟩
    simp only [Ty.serialize, hread, Ty.encode, toBe_length]
    exact (readScalar_post site hlt old).mono fun _ _ => Nat.le_of_eq
  | string => exact serializeString_post hlt old
  | vector t ih => exact serializeVector_post hlt (fun p hp old => ih hp old) old
  | map k v ihk ihv =>
    refine counted_post hlt fun p hp m => ?_
    refine (ihk hp default).andThen fun key q hq hkey => ?_
    refine (ihv hq (OrderedMap.get m key)).map _ fun value q' hvalue => ?_
    let encode (e : k.Val ×ₗ v.Val) : List UInt8 := k.encode (ofLex e).1 ++ v.encode (ofLex e).2
    have hle : ((m.insert (toLex (key, value))).toList.flatMap encode).length ≤
        (m.toList.flatMap encode).length + (k.encode key ++ v.encode value).length :=
      insertInto_length _ encode (toLex (key, value)) m.toList
    rw [List.length_append] at hle
    show p + ((m.insert (toLex (key, value))).toList.flatMap encode).length ≤
      q' + (m.toList.flatMap encode).length
    omega
  | set t ih =>
    refine counted_post hlt fun p hp s => ?_
    refine (ih hp default).andThen fun value q hq hvalue _ => ⟨q, hq, rfl, ?_⟩
    have hle : ((s.insert value).toList.flatMap t.encode).length ≤
        (s.toList.flatMap t.encode).length + (t.encode value).length :=
      insertInto_length _ t.encode value s.toList
    show p + ((s.insert value).toList.flatMap t.encode).length ≤
      q + (s.toList.flatMap t.encode).length
    omega

theorem serializeAll_post (host : Endian) (grants : Ty → Nat → Bool) (hlt : c.length < 2 ^ 31)
    (ts : List Ty)
    (hp : p ≤ c.length) (old : Vals ts) :
    Post c (fun values q => p + (encodeAll ts values).length ≤ q)
      (serializeAll host grants ts ⟨c, p⟩ old) := by
  induction ts generalizing p with
  | nil => exact fun _ => ⟨p, hp, rfl, Nat.le_refl _⟩
  | cons t ts ih =>
    obtain ⟨old, olds⟩ := old
    let x := t.serialize host grants ⟨c, p⟩ old
    have hthen : Post c (fun values q => p + (encodeAll (t :: ts) values).length ≤ q)
        (x.andThen (x.target, olds) fun value r =>
          (serializeAll host grants ts r olds).map fun values => (value, values)) := by
      refine (t.serialize_post hlt hp old).andThen fun value q hq hvalue => ?_
      refine (ih hq olds).map _ fun values q' hvalues => ?_
      rw [encodeAll, List.length_append]
      omega
    exact hthen

end Post

end ZlNet.Engine
