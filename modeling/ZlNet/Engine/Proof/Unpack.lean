import ZlNet.Engine.InnerProtocol
import ZlNet.Engine.Serializes

/-! Reading the bytes that a peer sends: from which bytes `unpack` reads its arguments, from which
it throws, and that it fails on all others. -/

namespace ZlNet.Engine

open Network Lib Lib.Word Lib.Bytes

/-- From `p` to `q` by `n` steps of `R`. -/
def Steps (R : Nat → Nat → Prop) : (n p q : Nat) → Prop
  | 0, p, q => p = q
  | n + 1, p, q => ∃ m, R p m ∧ Steps R n m q

section Grammar

variable (c : List UInt8)

/-- There is an integer `len` at `p`. -/
def LengthAt (p : Nat) (len : Int) : Prop :=
  p + 4 ≤ c.length ∧ (Scalar.int32.ofBits (ofBe ((c.drop p).take 4))).toInt = len

variable (grants : Ty → Nat → Bool)

/-- The bytes of `c` from `p` to `q` are a value of the type: no length is negative, and each is
followed by what it announces. -/
def Ty.Reads : Ty → (p q : Nat) → Prop
  | .int k, p, q => q = p + k.scalar.size ∧ q ≤ c.length
  | .string, p, q => ∃ n : Nat, LengthAt c p n ∧ q = p + 4 + n ∧ q ≤ c.length
  | .vector t, p, q => ∃ n : Nat, LengthAt c p n ∧ grants t n = true ∧ Steps t.Reads n (p + 4) q
  | .map k v, p, q => ∃ n : Nat, LengthAt c p n ∧
      Steps (fun p q => ∃ m, k.Reads p m ∧ v.Reads m q) n (p + 4) q
  | .set t, p, q => ∃ n : Nat, LengthAt c p n ∧ Steps t.Reads n (p + 4) q

/-- What `for (;len;len--)` may run before a signed overflow. -/
def turnsOf (len : Int) : Nat := if 0 ≤ len then len.toNat else (len + 2 ^ 31).toNat + 1

/-- Within the first `n` elements from `p` on, after elements that are read, there is one that
throws. -/
def ThrowsWithin (R : Nat → Nat → Prop) (T : Nat → Prop) (n p : Nat) : Prop :=
  ∃ i < n, ∃ m, Steps R i p m ∧ T m

/-- The bytes of `c` from `p` on make `Serialize` throw: what is not a value is first a vector of a
negative length or without memory for it, or a string of a negative length whose pointer is not
null. -/
def Ty.Throws : Ty → (p : Nat) → Prop
  | .int _, _ => False
  | .string, p => ∃ len < 0, LengthAt c p len ∧ add32 (p + 4) (ofInt32 len) ≤ c.length
  | .vector t, p => ∃ len, LengthAt c p len ∧
      (len < 0 ∨ grants t len.toNat = false ∨
        ThrowsWithin (t.Reads c grants) t.Throws len.toNat (p + 4))
  | .map k v, p => ∃ len, LengthAt c p len ∧
      ThrowsWithin (fun p q => ∃ m, k.Reads c grants p m ∧ v.Reads c grants m q)
        (fun p => k.Throws p ∨ ∃ m, k.Reads c grants p m ∧ v.Throws m) (turnsOf len) (p + 4)
  | .set t, p => ∃ len, LengthAt c p len ∧
      ThrowsWithin (t.Reads c grants) t.Throws (turnsOf len) (p + 4)

/-- The bytes from `p` to `q` are values of all the types, one after another. -/
def ReadsAll : List Ty → (p q : Nat) → Prop
  | [], p, q => p = q
  | t :: ts, p, q => ∃ m, t.Reads c grants p m ∧ ReadsAll ts m q

/-- After values of the first of the types there is one that throws. -/
def ThrowsAll : List Ty → (p : Nat) → Prop
  | [], _ => False
  | t :: ts, p => t.Throws c grants p ∨ ∃ m, t.Reads c grants p m ∧ ThrowsAll ts m

/-- Every length that is read is backed by the bytes after it, up to one that makes `Serialize`
throw, if there is one. -/
def Backed (ts : List Ty) : Prop := (∃ q, ReadsAll c grants ts 0 q) ∨ ThrowsAll c grants ts 0

end Grammar

/-! ### Steps that move on -/

variable {c : List UInt8} {grants : Ty → Nat → Bool} {R : Nat → Nat → Prop} {T : Nat → Prop}

/-- A step reads at least a byte, and stays inside the content. -/
structure Moves (c : List UInt8) (R : Nat → Nat → Prop) (T : Nat → Prop) : Prop where
  step : ∀ p q, R p q → p < q ∧ q ≤ c.length
  throws : ∀ p, T p → p < c.length

theorem Moves.steps (h : Moves c R T) {n p q : Nat} (hp : p ≤ c.length) (hsteps : Steps R n p q) :
    p + n ≤ q ∧ q ≤ c.length := by
  induction n generalizing p with
  | zero =>
    obtain rfl : p = q := hsteps
    exact ⟨Nat.le_refl _, hp⟩
  | succ n ih =>
    obtain ⟨m, hm, hrest⟩ := hsteps
    obtain ⟨hlt, hle⟩ := h.step p m hm
    obtain ⟨hfar, hq⟩ := ih hle hrest
    exact ⟨by omega, hq⟩

theorem LengthAt.bound {p : Nat} {len : Int} (h : LengthAt c p len) : p + 4 ≤ c.length := h.1

theorem LengthAt.unique {p : Nat} {len len' : Int} (h : LengthAt c p len) (h' : LengthAt c p len') :
    len = len' := h.2.symm.trans h'.2

theorem moves_after {f : Nat → Nat → Prop} {g : Nat → Prop} {p q : Nat} (h : Moves c f g) {n : Nat}
    (hlen : p + 4 ≤ c.length) (hsteps : Steps f n (p + 4) q) : p < q ∧ q ≤ c.length := by
  obtain ⟨hfar, hq⟩ := h.steps hlen hsteps
  exact ⟨by omega, hq⟩

theorem Moves.pair {R' : Nat → Nat → Prop} {T' : Nat → Prop} (h : Moves c R T)
    (h' : Moves c R' T') :
    Moves c (fun p q => ∃ m, R p m ∧ R' m q) (fun p => T p ∨ ∃ m, R p m ∧ T' m) where
  step p q := by
    rintro ⟨m, hm, hq⟩
    obtain ⟨hpm, -⟩ := h.step p m hm
    obtain ⟨hmq, hle⟩ := h'.step m q hq
    exact ⟨by omega, hle⟩
  throws p := by
    rintro (hp | ⟨m, hm, -⟩)
    · exact h.throws p hp
    · obtain ⟨hpm, hle⟩ := h.step p m hm
      omega

theorem Ty.moves (t : Ty) : Moves c (t.Reads c grants) (t.Throws c grants) := by
  induction t with
  | int k =>
    refine ⟨?_, nofun⟩
    rintro p q ⟨rfl, hq⟩
    exact ⟨Nat.lt_add_of_pos_right k.scalar.size_pos, hq⟩
  | string =>
    refine ⟨?_, ?_⟩
    · rintro p q ⟨n, -, rfl, hq⟩
      exact ⟨by omega, hq⟩
    · rintro p ⟨len, -, hlen, -⟩
      exact Nat.lt_of_lt_of_le (by omega) hlen.1
  | vector t ih =>
    refine ⟨?_, ?_⟩
    · rintro p q ⟨n, hlen, -, hsteps⟩
      exact moves_after ih hlen.1 hsteps
    · rintro p ⟨len, hlen, -⟩
      exact Nat.lt_of_lt_of_le (by omega) hlen.1
  | map k v ihk ihv =>
    refine ⟨?_, ?_⟩
    · rintro p q ⟨n, hlen, hsteps⟩
      exact moves_after (ihk.pair ihv) hlen.1 hsteps
    · rintro p ⟨len, hlen, -⟩
      exact Nat.lt_of_lt_of_le (by omega) hlen.1
  | set t ih =>
    refine ⟨?_, ?_⟩
    · rintro p q ⟨n, hlen, hsteps⟩
      exact moves_after ih hlen.1 hsteps
    · rintro p ⟨len, hlen, -⟩
      exact Nat.lt_of_lt_of_le (by omega) hlen.1

/-! ### Calls that keep to the grammar -/

section Meets

variable {α β : Type} {x : Read α} {Q : Nat → Prop} {E : Prop}

/-- A call returns at the positions `Q`, throws under `E`, and fails otherwise.  No loop of it begins
more iterations than there were bytes left, unless the call fails. -/
structure Meets (c : List UInt8) (Q : Nat → Prop) (E : Prop) (x : Read α) : Prop where
  returns : ∀ q, Q q → x.stop = none ∧ x.reader = ⟨c, q⟩
  throws : E → x.stop = some .exception
  fails : (∀ q, ¬Q q) → ¬E → ∃ f, x.stop = some (.fault f)
  bounded : (∀ f, x.stop ≠ some (.fault f)) → ∀ l ∈ x.loops, l.turns ≤ l.left

/-- A call that fails. -/
theorem Meets.of_fault {f : Fault} (hstop : x.stop = some (.fault f)) (hQ : ∀ q, ¬Q q) (hE : ¬E) :
    Meets c Q E x where
  returns q hq := absurd hq (hQ q)
  throws he := absurd he hE
  fails _ _ := ⟨f, hstop⟩
  bounded hsound := absurd hstop (hsound f)

/-- A call that throws, without a loop. -/
theorem Meets.of_exception (hstop : x.stop = some .exception) (hloops : x.loops = [])
    (hQ : ∀ q, ¬Q q) (hE : E) : Meets c Q E x where
  returns q hq := absurd hq (hQ q)
  throws _ := hstop
  fails _ hnot := absurd hE hnot
  bounded _ l hl := by
    rw [hloops] at hl
    cases hl

/-- A call that returns, without a loop. -/
theorem Meets.of_return {q : Nat} (hstop : x.stop = none) (hreader : x.reader = ⟨c, q⟩)
    (hloops : x.loops = []) (hQ : ∀ q', Q q' ↔ q' = q) (hE : ¬E) : Meets c Q E x where
  returns q' hq' := ⟨hstop, by rw [hreader, (hQ q').mp hq']⟩
  throws he := absurd he hE
  fails hnone _ := absurd ((hQ q).mpr rfl) (hnone q)
  bounded _ l hl := by
    rw [hloops] at hl
    cases hl

theorem Meets.of_stop (h : Meets c Q E x) (hstop : ∀ f, x.stop ≠ some (.fault f)) :
    (∃ q, Q q) ∨ E := by
  by_contra hnot
  rw [not_or, not_exists] at hnot
  obtain ⟨f, hf⟩ := h.fails hnot.1 hnot.2
  exact hstop f hf

theorem Meets.congr {Q' : Nat → Prop} {E' : Prop} (h : Meets c Q E x) (hQ : ∀ q, Q' q ↔ Q q)
    (hE : E' ↔ E) : Meets c Q' E' x where
  returns q hq := h.returns q ((hQ q).mp hq)
  throws he := h.throws (hE.mp he)
  fails hq he := h.fails (fun q => fun hq' => hq q ((hQ q).mpr hq')) (fun he' => he (hE.mpr he'))
  bounded := h.bounded

theorem Meets.map (h : Meets c Q E x) (f : α → β) : Meets c Q E (x.map f) :=
  ⟨h.returns, h.throws, h.fails, h.bounded⟩

theorem Meets.pure {q : Nat} (a : α) : Meets c (· = q) False { target := a, reader := ⟨c, q⟩ } :=
  .of_return rfl rfl rfl (fun _ => Iff.rfl) id

theorem Meets.andThen {Q' : Nat → Nat → Prop} {E' : Nat → Prop} {old : β}
    {f : α → BufferReader → Read β} (h : Meets c Q E x)
    (hf : ∀ q, Q q → ∀ a, Meets c (Q' q) (E' q) (f a ⟨c, q⟩)) :
    Meets c (fun q => ∃ m, Q m ∧ Q' m q) (E ∨ ∃ m, Q m ∧ E' m) (x.andThen old f) := by
  by_cases hq : ∃ m, Q m
  · obtain ⟨m, hm⟩ := hq
    obtain ⟨hstop, hreader⟩ := h.returns m hm
    have hnext := hf m hm x.target
    have hunique (m' : Nat) (hm' : Q m') : m' = m := by
      have heq := (h.returns m' hm').2.symm.trans hreader
      simpa using heq
    simp only [Read.andThen, hstop, hreader]
    refine ⟨?_, ?_, ?_, ?_⟩
    · rintro q ⟨m', hm', hq⟩
      obtain rfl := hunique m' hm'
      exact hnext.returns q hq
    · rintro (he | ⟨m', hm', he⟩)
      · rw [h.throws he] at hstop
        cases hstop
      · obtain rfl := hunique m' hm'
        exact hnext.throws he
    · intro hnone hnot
      exact hnext.fails (fun q hq => hnone q ⟨m, hm, hq⟩) fun he => hnot (.inr ⟨m, hm, he⟩)
    · intro hsound l hl
      rcases List.mem_append.mp hl with hl | hl
      · exact h.bounded (fun f hf => by rw [hstop] at hf; cases hf) l hl
      · exact hnext.bounded hsound l hl
  · rw [not_exists] at hq
    have hstop : ∃ s, x.stop = some s := by
      by_cases he : E
      · exact ⟨_, h.throws he⟩
      · obtain ⟨f, hf⟩ := h.fails hq he
        exact ⟨_, hf⟩
    obtain ⟨s, hs⟩ := hstop
    simp only [Read.andThen, hs]
    refine ⟨?_, ?_, ?_, ?_⟩
    · rintro q ⟨m, hm, -⟩
      exact absurd hm (hq m)
    · rintro (he | ⟨m, hm, -⟩)
      · exact hs ▸ h.throws he
      · exact absurd hm (hq m)
    · intro _ hnot
      exact hs ▸ h.fails hq fun he => hnot (.inl he)
    · intro hsound
      exact h.bounded (hs ▸ hsound)

theorem loop_meets (body : Nat → BufferReader → α → Read α) (ends : Option Abort) (left : Nat)
    (hmoves : Moves c R T)
    (hbody : ∀ p ≤ c.length, ∀ i a, Meets c (R p) (T p) (body i ⟨c, p⟩ a))
    (hends : ends = none ∨ ∃ f, ends = some (.fault f)) {n i p : Nat} (hp : p ≤ c.length)
    (hleft : i + (c.length - p) ≤ left) (a : α) :
    Meets c (fun q => ends = none ∧ Steps R n p q) (ThrowsWithin R T n p)
      (loop body ends left n i ⟨c, p⟩ a) := by
  induction n generalizing i p a with
  | zero =>
    refine ⟨?_, ?_, ?_, ?_⟩
    · rintro q ⟨hnone, hq⟩
      obtain rfl : p = q := hq
      exact ⟨hnone, rfl⟩
    · rintro ⟨j, hj, -⟩
      omega
    · intro hnone _
      rcases hends with hends | hends
      · exact absurd ⟨hends, rfl⟩ (hnone p)
      · exact hends
    · intro _ l hl
      obtain rfl : l = ⟨left, i⟩ := List.mem_singleton.mp hl
      show i ≤ left
      omega
  | succ n ih =>
    have hx := hbody p hp i a
    by_cases hq : ∃ m, R p m
    · obtain ⟨m, hm⟩ := hq
      obtain ⟨hlt, hle⟩ := hmoves.step p m hm
      obtain ⟨hstop, hreader⟩ := hx.returns m hm
      have hrest := ih (i := i + 1) (p := m) hle (by omega) (body i ⟨c, p⟩ a).target
      have hunique (m' : Nat) (hm' : R p m') : m' = m := by
        have heq := (hx.returns m' hm').2.symm.trans hreader
        simpa using heq
      simp only [loop, hstop, hreader]
      refine ⟨?_, ?_, ?_, ?_⟩
      · rintro q ⟨hnone, m', hm', hsteps⟩
        obtain rfl := hunique m' hm'
        exact hrest.returns q ⟨hnone, hsteps⟩
      · rintro ⟨j, hj, m', hsteps, ht⟩
        cases j with
        | zero =>
          obtain rfl : p = m' := hsteps
          rw [hx.throws ht] at hstop
          cases hstop
        | succ j =>
          obtain ⟨m'', hm'', hsteps⟩ := hsteps
          obtain rfl := hunique m'' hm''
          exact hrest.throws ⟨j, by omega, m', hsteps, ht⟩
      · intro hnone hnot
        apply hrest.fails
        · rintro q ⟨hends', hsteps⟩
          exact hnone q ⟨hends', m, hm, hsteps⟩
        · rintro ⟨j, hj, m', hsteps, ht⟩
          exact hnot ⟨j + 1, by omega, m', ⟨m, hm, hsteps⟩, ht⟩
      · intro hsound l hl
        rcases List.mem_append.mp hl with hl | hl
        · exact hx.bounded (fun f hf => by rw [hstop] at hf; cases hf) l hl
        · exact hrest.bounded hsound l hl
    · rw [not_exists] at hq
      by_cases ht : T p
      · have hstop := hx.throws ht
        have hlt := hmoves.throws p ht
        simp only [loop, hstop]
        refine ⟨?_, fun _ => rfl, ?_, ?_⟩
        · rintro q ⟨-, m, hm, -⟩
          exact absurd hm (hq m)
        · intro _ hnot
          exact absurd ⟨0, by omega, p, rfl, ht⟩ hnot
        · intro hsound l hl
          rcases List.mem_append.mp hl with hl | hl
          · exact hx.bounded (fun f hf => by rw [hstop] at hf; cases hf) l hl
          · obtain rfl : l = ⟨left, i + 1⟩ := List.mem_singleton.mp hl
            show i + 1 ≤ left
            omega
      · obtain ⟨f, hf⟩ := hx.fails hq ht
        simp only [loop, hf]
        refine .of_fault (f := f) rfl ?_ ?_
        · rintro q ⟨-, m, hm, -⟩
          exact absurd hm (hq m)
        · rintro ⟨j, hj, m, hsteps, ht'⟩
          cases j with
          | zero =>
            obtain rfl : p = m := hsteps
            exact absurd ht' ht
          | succ j =>
            obtain ⟨m', hm', -⟩ := hsteps
            exact absurd hm' (hq m')

end Meets

/-! ### What `Serialize` reads -/

section Serialize

variable {host : Endian} {α : Type} {p : Nat}

theorem readScalar_meets {s : Scalar} {site : Site} (hlt : c.length < 2 ^ 32) (old : s.T) :
    Meets c (fun q => q = p + s.size ∧ q ≤ c.length) False
      (.into old ⟨c, p⟩ (BufferReader.readScalar ⟨c, p⟩ host s site)) := by
  by_cases hfit : p + s.size ≤ c.length
  · rw [BufferReader.readScalar_eq (r := ⟨c, p⟩) host s site hfit hlt]
    refine .of_return rfl rfl rfl (fun q => ⟨fun hq => hq.1, ?_⟩) id
    rintro rfl
    exact ⟨rfl, hfit⟩
  · obtain ⟨f, hf⟩ := BufferReader.readScalar_fault (r := ⟨c, p⟩) host s site
      (Nat.lt_of_not_le hfit)
    rw [hf]
    refine .of_fault (f := f) rfl ?_ id
    rintro q ⟨rfl, hq⟩
    exact hfit hq

/-- A call that reads a length first. -/
theorem withLength_meets (host : Endian) (Q : Int → Nat → Prop) (E : Int → Prop)
    (f : Int32 → BufferReader → Read α) (hlt : c.length < 2 ^ 32) (old : α)
    (hf : ∀ len : Int32, LengthAt c p len.toInt →
      Meets c (Q len.toInt) (E len.toInt) (f len ⟨c, p + 4⟩)) :
    Meets c (fun q => ∃ len, LengthAt c p len ∧ Q len q) (∃ len, LengthAt c p len ∧ E len)
      (withLength host ⟨c, p⟩ old f) := by
  by_cases hfit : p + 4 ≤ c.length
  · let len := Scalar.int32.ofBits (ofBe ((c.drop p).take 4))
    have hread : BufferReader.readInt32 host ⟨c, p⟩ = .ok (len, ⟨c, p + 4⟩) :=
      BufferReader.readScalar_eq host .int32 .readInt32 hfit hlt
    have hlen : LengthAt c p len.toInt := ⟨hfit, rfl⟩
    have hmeets := hf len hlen
    have heq : withLength host ⟨c, p⟩ old f = f len ⟨c, p + 4⟩ := by
      simp [withLength, hread, Read.into, Read.andThen]
    rw [heq]
    refine hmeets.congr (fun q => ⟨?_, fun hq => ⟨_, hlen, hq⟩⟩) ⟨?_, fun he => ⟨_, hlen, he⟩⟩
    · rintro ⟨len', hlen', hq⟩
      exact hlen.unique hlen' ▸ hq
    · rintro ⟨len', hlen', he⟩
      exact hlen.unique hlen' ▸ he
  · obtain ⟨f', hf'⟩ : ∃ f, BufferReader.readInt32 host ⟨c, p⟩ = .error f :=
      BufferReader.readScalar_fault host .int32 .readInt32 (Nat.lt_of_not_le hfit)
    have hstop : (withLength host ⟨c, p⟩ old f).stop = some (.fault f') := by
      simp [withLength, hf', Read.into, Read.andThen]
    refine .of_fault hstop ?_ ?_
    · rintro q ⟨len, hlen, -⟩
      exact hfit hlen.1
    · rintro ⟨len, hlen, -⟩
      exact hfit hlen.1

theorem exists_length {P : Nat → Prop} :
    (∃ n : Nat, LengthAt c p n ∧ P n) ↔ ∃ len, LengthAt c p len ∧ 0 ≤ len ∧ P len.toNat := by
  constructor
  · rintro ⟨n, hlen, hP⟩
    exact ⟨n, hlen, Int.natCast_nonneg n, by rwa [Int.toNat_natCast]⟩
  · rintro ⟨len, hlen, hpos, hP⟩
    exact ⟨len.toNat, by rwa [Int.toNat_of_nonneg hpos], hP⟩

/-- A string is appended from a pointer that is not null, with its length if it is not negative. -/
theorem append_meets (hlt : c.length < 2 ^ 32) (len : Int32) :
    Meets c (fun q => 0 ≤ len.toInt ∧ q = p + len.toInt.toNat ∧ q ≤ c.length)
      (len.toInt < 0 ∧ add32 p (ofInt32 len.toInt) ≤ c.length)
      (append ⟨c, add32 p (ofInt32 len.toInt)⟩ (readPtr c p (ofInt32 len.toInt)) len) := by
  have hsize (hpos : 0 ≤ len.toInt) : ofInt32 len.toInt = len.toInt.toNat := by
    have hlt := len.toInt_lt
    unfold ofInt32
    omega
  have hsum (hpos : 0 ≤ len.toInt) (hfit : p + len.toInt.toNat ≤ c.length) :
      add32 p (ofInt32 len.toInt) = p + len.toInt.toNat := by
    rw [hsize hpos, add32_eq (by omega)]
  by_cases hnull : c.length < add32 p (ofInt32 len.toInt)
  · have hptr : readPtr c p (ofInt32 len.toInt) = none := by simp only [readPtr, hnull, ite_true]
    simp only [hptr, append]
    refine .of_fault (f := .nullPointer) rfl ?_ ?_
    · rintro q ⟨hpos, rfl, hq⟩
      rw [hsum hpos hq] at hnull
      omega
    · rintro ⟨-, hle⟩
      omega
  · have hptr : readPtr c p (ofInt32 len.toInt) = some p := by
      simp only [readPtr, hnull, ite_false]
    by_cases hneg : len.toInt < 0
    · simp only [hptr, append, hneg, ite_true]
      refine .of_exception rfl rfl ?_ ⟨trivial, Nat.le_of_not_lt hnull⟩
      rintro q ⟨hpos, -⟩
      omega
    · have hpos : 0 ≤ len.toInt := by omega
      by_cases hfit : p + len.toInt.toNat ≤ c.length
      · simp only [hptr, append, hneg, ite_false, copyOut_of_le hfit]
        refine .of_return rfl (by rw [hsum hpos hfit]) rfl (fun q => ⟨fun hq => hq.2.1, ?_⟩) ?_
        · rintro rfl
          exact ⟨hpos, rfl, hfit⟩
        · rintro ⟨h, -⟩
          exact h
      · simp only [hptr, append, hneg, ite_false, copyOut_of_lt (Nat.lt_of_not_le hfit)]
        refine .of_fault (f := .outOfBounds) rfl ?_ ?_
        · rintro q ⟨-, rfl, hq⟩
          exact hfit hq
        · rintro ⟨h, -⟩
          exact h

theorem serializeString_meets (hlt : c.length < 2 ^ 32) (old : List UInt8) :
    Meets c (Ty.string.Reads c grants p) (Ty.string.Throws c grants p)
      (serializeString host ⟨c, p⟩ old) := by
  have hmeets := withLength_meets (p := p) host
    (fun len q => 0 ≤ len ∧ q = p + 4 + len.toNat ∧ q ≤ c.length)
    (fun len => len < 0 ∧ add32 (p + 4) (ofInt32 len) ≤ c.length)
    (fun len r => append (r.read len).2 (r.read len).1 len) hlt old (by
      intro len _
      simp only [BufferReader.read, toUInt32_toNat]
      exact append_meets hlt len)
  refine hmeets.congr (fun q => exists_length) ⟨?_, ?_⟩
  · rintro ⟨len, hneg, hlen, hptr⟩
    exact ⟨len, hlen, hneg, hptr⟩
  · rintro ⟨len, hlen, hneg, hptr⟩
    exact ⟨len, hneg, hlen, hptr⟩

theorem serializeVector_meets [Inhabited α] {grants' : Nat → Bool} {elem : BufferReader → α → Read α}
    (hlt : c.length < 2 ^ 32) (hmoves : Moves c R T)
    (helem : ∀ p ≤ c.length, ∀ a, Meets c (R p) (T p) (elem ⟨c, p⟩ a)) (old : List α) :
    Meets c (fun q => ∃ n : Nat, LengthAt c p n ∧ grants' n = true ∧ Steps R n (p + 4) q)
      (∃ len, LengthAt c p len ∧
        (len < 0 ∨ grants' len.toNat = false ∨ ThrowsWithin R T len.toNat (p + 4)))
      (serializeVector host grants' elem ⟨c, p⟩ old) := by
  have hmeets := withLength_meets (p := p) host
    (fun len q => 0 ≤ len ∧ grants' len.toNat = true ∧ Steps R len.toNat (p + 4) q)
    (fun len => len < 0 ∨ grants' len.toNat = false ∨ ThrowsWithin R T len.toNat (p + 4))
    (fun len r =>
      if len.toInt < 0 ∨ grants' len.toInt.toNat = false then
        { target := [], reader := r, stop := some .exception }
      else
        loop (fun i r vec => (elem r (vec.getD i default)).map (vec.set i)) none r.left
          len.toInt.toNat 0 r (.replicate len.toInt.toNat default)) hlt old (by
      intro len hlen
      by_cases hrefused : len.toInt < 0 ∨ grants' len.toInt.toNat = false
      · simp only [hrefused, ite_true]
        refine .of_exception rfl rfl ?_ (or_assoc.mp (.inl hrefused))
        rintro q ⟨hpos, hgrants, -⟩
        rcases hrefused with hneg | hrefused
        · omega
        · rw [hgrants] at hrefused
          cases hrefused
      · have hloop := loop_meets
          (fun i r (vec : List α) => (elem r (vec.getD i default)).map (vec.set i)) none
          (c.length - (p + 4)) hmoves (fun p hp i vec => (helem p hp _).map _) (.inl rfl)
          (n := len.toInt.toNat) (i := 0) hlen.1 (by omega) (.replicate len.toInt.toNat default)
        simp only [hrefused, ite_false]
        rw [not_or, Bool.not_eq_false] at hrefused
        refine hloop.congr (fun q => ⟨fun h => ⟨rfl, h.2.2⟩, fun h => ?_⟩) ⟨?_, fun h => .inr (.inr h)⟩
        · exact ⟨Int.not_lt.mp hrefused.1, hrefused.2, h.2⟩
        · rintro (hneg | hfalse | hwithin)
          · exact absurd hneg hrefused.1
          · rw [hrefused.2] at hfalse
            cases hfalse
          · exact hwithin)
  exact hmeets.congr (fun q => exists_length) Iff.rfl

theorem countdown_meets {body : BufferReader → α → Read α} (hmoves : Moves c R T)
    (hbody : ∀ p ≤ c.length, ∀ a, Meets c (R p) (T p) (body ⟨c, p⟩ a)) (hp : p ≤ c.length)
    (len : Int) (a : α) :
    Meets c (fun q => 0 ≤ len ∧ Steps R len.toNat p q) (ThrowsWithin R T (turnsOf len) p)
      (countdown body len ⟨c, p⟩ a) := by
  by_cases hlen : 0 ≤ len
  · have hloop := loop_meets (fun _ => body) none (c.length - p) hmoves
      (fun p hp _ a => hbody p hp a) (.inl rfl) (n := len.toNat) (i := 0) hp (by omega) a
    simp only [countdown, turnsOf, hlen, ite_true]
    exact hloop.congr (fun q => by simp) Iff.rfl
  · have hloop := loop_meets (fun _ => body) (some (.fault .overflow)) (c.length - p) hmoves
      (fun p hp _ a => hbody p hp a) (.inr ⟨_, rfl⟩)
      (n := (len + 2 ^ 31).toNat + 1) (i := 0) hp (by omega) a
    simp only [countdown, turnsOf, hlen, ite_false]
    exact hloop.congr (fun q => by simp) Iff.rfl

theorem counted_meets {host : Endian} {body : BufferReader → α → Read α} (hlt : c.length < 2 ^ 32)
    (hmoves : Moves c R T) (hbody : ∀ p ≤ c.length, ∀ a, Meets c (R p) (T p) (body ⟨c, p⟩ a))
    (a : α) :
    Meets c (fun q => ∃ n : Nat, LengthAt c p n ∧ Steps R n (p + 4) q)
      (∃ len, LengthAt c p len ∧ ThrowsWithin R T (turnsOf len) (p + 4))
      (withLength host ⟨c, p⟩ a fun len r => countdown body len.toInt r a) := by
  have hmeets := withLength_meets (p := p) host
    (fun len q => 0 ≤ len ∧ Steps R len.toNat (p + 4) q)
    (fun len => ThrowsWithin R T (turnsOf len) (p + 4))
    (fun len r => countdown body len.toInt r a) hlt a
    fun len hlen => countdown_meets hmoves hbody hlen.1 len.toInt a
  exact hmeets.congr (fun q => exists_length) Iff.rfl

theorem Ty.serialize_meets (hlt : c.length < 2 ^ 32) (t : Ty) {p : Nat} (hp : p ≤ c.length)
    (value : t.Val) :
    Meets c (t.Reads c grants p) (t.Throws c grants p) (t.serialize host grants ⟨c, p⟩ value) := by
  induction t generalizing p with
  | int k =>
    obtain ⟨host', site, hread⟩ := k.read_eq host ⟨c, p⟩
    simp only [Ty.serialize, hread]
    exact readScalar_meets hlt value
  | string => exact serializeString_meets hlt value
  | vector t ih => exact serializeVector_meets hlt t.moves (fun p hp a => ih hp a) value
  | map k v ihk ihv =>
    refine counted_meets hlt (k.moves.pair v.moves) (fun p hp map => ?_) default
    refine (ihk hp default).andThen fun q hq key => ?_
    exact (ihv (k.moves.step p q hq).2 _).map _
  | set t ih =>
    refine counted_meets hlt t.moves (fun p hp set => ?_) default
    have hthen : Meets c (fun q => ∃ m, t.Reads c grants p m ∧ q = m)
        (t.Throws c grants p ∨ ∃ m, t.Reads c grants p m ∧ False)
        ((t.serialize host grants ⟨c, p⟩ default).andThen set fun value r =>
          { target := set.insert value, reader := r }) :=
      (ih hp default).andThen fun q _ value => Meets.pure (set.insert value)
    refine hthen.congr (fun q => ?_) ?_
    · simp
    · simp

/-! ### `unpack` -/

theorem serializeAll_meets (host : Endian) (grants : Ty → Nat → Bool) (hlt : c.length < 2 ^ 32)
    (ts : List Ty) {p : Nat} (hp : p ≤ c.length)
    (args : Vals ts) :
    Meets c (ReadsAll c grants ts p) (ThrowsAll c grants ts p)
      (serializeAll host grants ts ⟨c, p⟩ args) := by
  induction ts generalizing p with
  | nil => exact (Meets.pure ()).congr (fun q => eq_comm) Iff.rfl
  | cons t ts ih =>
    obtain ⟨value, values⟩ := args
    let x := t.serialize host grants ⟨c, p⟩ value
    have hthen : Meets c (fun q => ∃ m, t.Reads c grants p m ∧ ReadsAll c grants ts m q)
        (t.Throws c grants p ∨ ∃ m, t.Reads c grants p m ∧ ThrowsAll c grants ts m)
        (x.andThen (x.target, values) fun value r =>
          (serializeAll host grants ts r values).map fun values => (value, values)) :=
      (t.serialize_meets hlt hp value).andThen fun q hq value =>
        (ih (t.moves.step p q hq).2 values).map _
    exact hthen

theorem readsAll_le {ts : List Ty} {p q : Nat} (hp : p ≤ c.length)
    (h : ReadsAll c grants ts p q) : q ≤ c.length := by
  induction ts generalizing p with
  | nil =>
    obtain rfl : p = q := h
    exact hp
  | cons t ts ih =>
    obtain ⟨m, hm, hrest⟩ := h
    exact ih (t.moves.step p m hm).2 hrest

end Serialize

/-- The call of `unpack` has returned.  It has filled its arguments from bytes inside the buffer, or
reported an exception, and no loop of it began more iterations than there were bytes left. -/
structure Unpacked.Safe {ts : List Ty} (u : Unpacked ts) : Prop where
  returned : u.read.stop = none
  inside : u.reported = false → u.read.reader.pos ≤ u.read.reader.content.length
  bounded : ∀ l ∈ u.read.loops, l.turns ≤ l.left

/-- `unpack` is safe on exactly those bytes whose lengths are backed. -/
theorem unpack_safe_iff (host : Endian) (grants : Ty → Nat → Bool) (ts : List Ty)
    (message : SerializeMessage) (hsize : message.buffer.length < 2 ^ 32) (args : Vals ts) :
    (unpack host grants ts ⟨message.buffer, 0⟩ args).Safe ↔ Backed message.buffer grants ts := by
  have hmeets := serializeAll_meets host grants hsize ts (Nat.zero_le _) args
  constructor
  · intro hsafe
    apply hmeets.of_stop
    intro f hf
    have hreturned := hsafe.returned
    simp [unpack, hf] at hreturned
  · rintro (⟨q, hq⟩ | hthrows)
    · obtain ⟨hstop, hreader⟩ := hmeets.returns q hq
      have hunpack : unpack host grants ts ⟨message.buffer, 0⟩ args =
          ⟨serializeAll host grants ts ⟨message.buffer, 0⟩ args, false⟩ := by
        simp [unpack, hstop]
      rw [hunpack]
      refine ⟨hstop, fun _ => ?_, hmeets.bounded (by simp [hstop])⟩
      rw [hreader]
      exact readsAll_le (Nat.zero_le _) hq
    · have hstop := hmeets.throws hthrows
      have hunpack : unpack host grants ts ⟨message.buffer, 0⟩ args =
          ⟨{ serializeAll host grants ts ⟨message.buffer, 0⟩ args with stop := none }, true⟩ := by
        simp [unpack, hstop]
      rw [hunpack]
      exact ⟨rfl, nofun, hmeets.bounded (by simp [hstop])⟩

/-- A string of three bytes. -/
theorem unpack_safe_iff_string :
    (unpack .little (fun _ _ => true) [.string] ⟨[0, 0, 0, 3, 97, 98, 99], 0⟩ ([], ())).Safe :=
  (unpack_safe_iff .little (fun _ _ => true) [.string] ⟨0, [0, 0, 0, 3, 97, 98, 99]⟩ (by decide)
    ([], ())).mpr (.inl ⟨7, 7, ⟨3, ⟨by decide, by decide⟩, rfl, by decide⟩, rfl⟩)

/-- What `handlerNodePing` unpacks, with a string that is said to have five bytes and has none. -/
theorem unpack_null :
    let u := unpack .little (fun _ _ => true)
      [.int .uint32, .int .uint32, .string, .int .uint32, .int .uint32]
      ⟨[0, 0, 0, 1, 0, 0, 0, 2, 0, 0, 0, 5], 0⟩
      ((0 : UInt32), (0 : UInt32), ([] : List UInt8), (0 : UInt32), (0 : UInt32), ())
    u.read.stop = some (.fault .nullPointer) ∧ ¬u.Safe := by
  refine ⟨by decide, fun h => ?_⟩
  have hstop := h.returned
  revert hstop
  decide

end ZlNet.Engine
