import Mathlib.Data.List.Basic

/-! Incremental decoders of a stream.  A decoder that never takes back what it has found in a part
of its input decodes a stream in the same way however the stream is cut into chunks, and a stream of
codewords word by word. -/

namespace ZlNet.Lib

variable {α ε ν : Type*}

/-- What a decoder finds at the start of its input: that it needs more of it, an item with the input
that follows, or a reason to stop. -/
inductive Decoded (α ε ν : Type*)
  | more
  | item (e : ε) (rest : List α)
  | halt (v : ν)

/-- A decoder whose findings stay the same when more input arrives, and that uses up input with every
item. -/
structure Decoder (α ε ν : Type*) where
  next : List α → Decoded α ε ν
  item_append : ∀ {q e rest}, next q = .item e rest → ∀ x, next (q ++ x) = .item e (rest ++ x)
  halt_append : ∀ {q v}, next q = .halt v → ∀ x, next (q ++ x) = .halt v
  item_shorter : ∀ {q e rest}, next q = .item e rest → rest.length < q.length

/-- Where a decoder stands between two chunks: with input it has not decoded yet, or stopped. -/
inductive Standing (α ν : Type*)
  | waiting (rest : List α)
  | halted (v : ν)

namespace Decoder

variable {d : Decoder α ε ν} {q r x : List α} {e : ε} {es : List ε} {v : ν}

/-- The input `q` starts with the items `es`, followed by `r`. -/
inductive Items (d : Decoder α ε ν) : List α → List ε → List α → Prop
  | nil (q : List α) : Items d q [] q
  | cons {q rest r : List α} {e : ε} {es : List ε} :
      d.next q = .item e rest → Items d rest es r → Items d q (e :: es) r

/-- All items at the start of the input, and where the decoder stands after them. -/
def drain (d : Decoder α ε ν) (q : List α) : List ε × Standing α ν :=
  match _h : d.next q with
  | .more => ([], .waiting q)
  | .halt v => ([], .halted v)
  | .item e rest =>
    let (es, s) := d.drain rest
    (e :: es, s)
termination_by q.length
decreasing_by exact d.item_shorter (by assumption)

theorem drain_more (h : d.next q = .more) : d.drain q = ([], .waiting q) := by
  rw [drain]
  split <;> simp_all

theorem drain_halt (h : d.next q = .halt v) : d.drain q = ([], .halted v) := by
  rw [drain]
  split <;> simp_all

theorem drain_item (h : d.next q = .item e r) :
    d.drain q = (e :: (d.drain r).1, (d.drain r).2) := by
  rw [drain]
  split <;> simp_all

theorem drain_items (h : d.Items q es r) : d.drain q = (es ++ (d.drain r).1, (d.drain r).2) := by
  induction h with
  | nil => rfl
  | cons hnext _ ih => rw [drain_item hnext, ih, List.cons_append]

theorem Items.append (h : d.Items q es r) (x : List α) : d.Items (q ++ x) es (r ++ x) := by
  induction h with
  | nil => exact .nil _
  | cons hnext _ ih => exact .cons (d.item_append hnext x) ih

theorem Items.length_le (h : d.Items q es r) : r.length ≤ q.length := by
  induction h with
  | nil => exact Nat.le_refl _
  | cons hnext _ ih => exact Nat.le_trans ih (Nat.le_of_lt (d.item_shorter hnext))

/-- An input is drained down to a rest at which the decoder finds no further item. -/
theorem drain_cases (d : Decoder α ε ν) (q : List α) :
    (∃ r, d.Items q (d.drain q).1 r ∧ d.next r = .more ∧ (d.drain q).2 = .waiting r) ∨
    ∃ r v, d.Items q (d.drain q).1 r ∧ d.next r = .halt v ∧ (d.drain q).2 = .halted v := by
  induction h : q.length using Nat.strongRecOn generalizing q with
  | _ n ih =>
    cases hnext : d.next q with
    | more =>
      rw [drain_more hnext]
      exact .inl ⟨q, .nil q, hnext, rfl⟩
    | halt v =>
      rw [drain_halt hnext]
      exact .inr ⟨q, v, .nil q, hnext, rfl⟩
    | item e rest =>
      have hlt := d.item_shorter hnext
      rw [drain_item hnext]
      rcases ih rest.length (h ▸ hlt) rest rfl with ⟨r, hitems, hr⟩ | ⟨r, v, hitems, hr⟩
      · exact .inl ⟨r, .cons hnext hitems, hr⟩
      · exact .inr ⟨r, v, .cons hnext hitems, hr⟩

/-- What holds of every item that is found holds of all that are drained. -/
theorem drain_all {P : ε → Prop} (h : ∀ {q e rest}, d.next q = .item e rest → P e) (q : List α) :
    ∀ e ∈ (d.drain q).1, P e := by
  have hall {es : List ε} {r : List α} (hitems : d.Items q es r) : ∀ e ∈ es, P e := by
    induction hitems with
    | nil => exact fun e he => by cases he
    | cons hnext _ ih => exact List.forall_mem_cons.mpr ⟨h hnext, ih⟩
  rcases d.drain_cases q with ⟨r, hitems, -⟩ | ⟨r, v, hitems, -⟩
  · exact hall hitems
  · exact hall hitems

/-- Input that arrives after the decoder has stopped is not looked at. -/
def feed (d : Decoder α ε ν) : List ε × Standing α ν → List α → List ε × Standing α ν
  | (es, .halted v), _ => (es, .halted v)
  | (es, .waiting rest), chunk =>
    let (es', s) := d.drain (rest ++ chunk)
    (es ++ es', s)

/-- A drained input decodes the same when more of it arrives. -/
theorem feed_drain (d : Decoder α ε ν) (q x : List α) :
    d.feed (d.drain q) x = d.drain (q ++ x) := by
  rcases d.drain_cases q with ⟨r, hitems, -, hs⟩ | ⟨r, v, hitems, hhalt, hs⟩
  · rw [drain_items (hitems.append x), ← Prod.eta (d.drain q), hs]
    rfl
  · rw [drain_items (hitems.append x), drain_halt (d.halt_append hhalt x),
      ← Prod.eta (d.drain q), hs]
    simp [feed]

/-- A stream fed in chunks is decoded as in one piece. -/
theorem feed_flatten (d : Decoder α ε ν) (chunks : List (List α)) (q : List α) :
    chunks.foldl d.feed (d.drain q) = d.drain (q ++ chunks.flatten) := by
  induction chunks generalizing q with
  | nil => simp
  | cons c cs ih => rw [List.foldl_cons, feed_drain, ih, List.flatten_cons, List.append_assoc]

/-! ### Streams of codewords -/

/-- Wherever `code` stands in a stream, the decoder finds `e` there, and goes on after it. -/
def Codes (d : Decoder α ε ν) (code : List α) (e : ε) : Prop :=
  ∀ x, d.next (code ++ x) = .item e x

/-- A part of a codeword says nothing yet. -/
theorem Codes.next_part {code : List α} (h : d.Codes code e) {p : List α} (hp : p <+: code)
    (hne : p ≠ code) : d.next p = .more := by
  obtain ⟨x, rfl⟩ := hp
  have hwhole := h []
  rw [List.append_nil] at hwhole
  cases hnext : d.next p with
  | more => rfl
  | item e' rest =>
    have hlonger := hwhole.symm.trans (d.item_append hnext x)
    obtain ⟨-, hnil⟩ := Decoded.item.inj hlonger
    obtain ⟨-, rfl⟩ := List.append_eq_nil_iff.mp hnil.symm
    exact absurd (List.append_nil p).symm hne
  | halt v => cases hwhole.symm.trans (d.halt_append hnext x)

/-- Of a stream of codewords that has arrived in part the decoder has found the items of those that
have arrived, and waits for the rest of the next. -/
theorem drain_codes {cs : List (List α × ε)} (h : ∀ c ∈ cs, d.Codes c.1 c.2)
    (hempty : d.next [] = .more) {p : List α} (hp : p <+: (cs.map (·.1)).flatten) :
    ∃ es rest, d.drain p = (es, .waiting rest) ∧ es <+: cs.map (·.2) ∧
      (rest = [] ∨ ∃ c ∈ cs, rest.length < c.1.length) := by
  induction cs generalizing p with
  | nil =>
    obtain rfl := List.prefix_nil.mp hp
    exact ⟨[], [], drain_more hempty, List.prefix_rfl, .inl rfl⟩
  | cons c cs ih =>
    have hc := h c List.mem_cons_self
    by_cases hwhole : c.1 <+: p
    · obtain ⟨p', rfl⟩ := hwhole
      have hp' : p' <+: (cs.map (·.1)).flatten := (List.prefix_append_right_inj c.1).mp hp
      obtain ⟨es, rest, hdrain, hes, hrest⟩ := ih (fun c' hc' => h c' (List.mem_cons_of_mem c hc')) hp'
      refine ⟨c.2 :: es, rest, by rw [drain_item (hc p'), hdrain], ?_, ?_⟩
      · exact (List.prefix_cons_inj c.2).mpr hes
      · rcases hrest with hnil | ⟨c', hmem, hlt⟩
        · exact .inl hnil
        · exact .inr ⟨c', List.mem_cons_of_mem c hmem, hlt⟩
    · have hpart : p <+: c.1 :=
        (List.prefix_or_prefix_of_prefix hp (List.prefix_append c.1 _)).resolve_right hwhole
      have hne : p ≠ c.1 := fun heq => hwhole (heq ▸ List.prefix_rfl)
      have hlt : p.length < c.1.length :=
        Nat.lt_of_le_of_ne hpart.length_le fun heq => hne (hpart.eq_of_length heq)
      exact ⟨[], p, drain_more (hc.next_part hpart hne), List.nil_prefix,
        .inr ⟨c, List.mem_cons_self, hlt⟩⟩

/-- A whole stream of codewords is decoded word by word. -/
theorem drain_codes_all {cs : List (List α × ε)} (h : ∀ c ∈ cs, d.Codes c.1 c.2)
    (hempty : d.next [] = .more) :
    d.drain (cs.map (·.1)).flatten = (cs.map (·.2), .waiting []) := by
  induction cs with
  | nil => exact drain_more hempty
  | cons c cs ih =>
    have hrest := ih fun c' hc' => h c' (List.mem_cons_of_mem c hc')
    rw [List.map_cons, List.flatten_cons, drain_item (h c List.mem_cons_self _), hrest]
    rfl

end Decoder

end ZlNet.Lib
