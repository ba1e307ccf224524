import Mathlib.Algebra.BigOperators.Group.List.Basic
import ZlNet.Network.Proof.Growth
import ZlNet.Network.StackMonitor

/-! The counter of `StackBuffer` objects.  It is the number of bytes on the heap as long as no object
is made from bytes that its own storage can take, no object on the heap is assigned to, and no
capacity is too large for an int32. -/

namespace ZlNet.Network

open Lib Lib.Word

variable {M : Type} [ResourceMonitor M] {m m' : M} {o o' obj : StackObject} {size : Nat}

/-- What the monitor says of `StackBuffer` objects. -/
def stackCounter (m : M) : Int := ResourceMonitor.counter m StackName

@[simp] theorem stackCounter_add (m : M) (n : Nat) :
    stackCounter (addCounter m StackName n) = stackCounter m + toInt32 n := by
  simp [stackCounter, addCounter, ResourceMonitor.counter_addCounter]

@[simp] theorem stackCounter_del (m : M) (n : Nat) :
    stackCounter (delCounter m StackName n) = stackCounter m - toInt32 n := by
  simp [stackCounter, delCounter, ResourceMonitor.counter_delCounter]

theorem toInt32_eq_iff {n : Nat} (h : n < 2 ^ 32) : toInt32 n = n ↔ n < 2 ^ 31 := by
  refine ⟨fun heq => ?_, toInt32_eq⟩
  unfold toInt32 at heq
  rw [Int.bmod_def] at heq
  omega

namespace StackObject

/-- The bytes that an object has on the heap. -/
def heapBytes (o : StackObject) : Int := if o.onHeap then o.buf.capacity else 0

/-- The storage of an object is on the heap when its capacity tells so, and an int32 can tell the
capacity. -/
structure Sound (o : StackObject) : Prop where
  fixed : o.FIXED_SIZE < 2 ^ 16
  large : o.FIXED_SIZE ≤ o.buf.capacity
  small : o.buf.capacity < 2 ^ 31
  heap : o.onHeap = true ↔ o.FIXED_SIZE < o.buf.capacity

theorem Sound.heapBytes_eq (h : o.Sound) :
    o.heapBytes = if o.FIXED_SIZE < o.buf.capacity then toInt32 o.buf.capacity else 0 := by
  rw [toInt32_eq h.small]
  simp only [heapBytes, h.heap]

theorem construct_sound {FIXED_SIZE : Nat} (hfixed : FIXED_SIZE < 2 ^ 16) :
    (construct FIXED_SIZE).Sound where
  fixed := hfixed
  large := Nat.le_refl _
  small := Nat.lt_trans hfixed (by decide)
  heap := by simp [construct, StackBuffer.new]

section

variable {FIXED_SIZE left : Nat} {buf : List UInt8} (hfixed : FIXED_SIZE < 2 ^ 16)
  (hmade : constructFrom m FIXED_SIZE buf left = (m', o))
include hfixed hmade

theorem constructFrom_sound (hsmall : buf.length < 2 ^ 31) : o.Sound := by
  cases hmade
  refine ⟨hfixed, ?_, ?_, ?_⟩
  · dsimp only
    split <;> omega
  · dsimp only
    split <;> omega
  · by_cases hlarge : FIXED_SIZE < buf.length
    · simp [hlarge]
    · simp [hlarge]

/-- The counter is told of the capacity, wherever it is. -/
theorem constructFrom_counter_iff (hword : buf.length < 2 ^ 32) :
    stackCounter m' = stackCounter m + o.heapBytes ↔
      (FIXED_SIZE < buf.length ∨ FIXED_SIZE = 0) ∧ buf.length < 2 ^ 31 := by
  cases hmade
  simp only [stackCounter_add, heapBytes, decide_eq_true_eq]
  by_cases hlarge : FIXED_SIZE < buf.length
  · have hiff := toInt32_eq_iff hword
    simp only [hlarge, if_true, true_or, true_and]
    omega
  · have heq := toInt32_eq (show FIXED_SIZE < 2 ^ 31 by omega)
    simp only [hlarge, if_false, false_or]
    omega

end

theorem copy_spec (h : obj.Sound) (hmade : obj.copy m = (m', o)) :
    o.Sound ∧ stackCounter m' = stackCounter m + o.heapBytes := by
  have heap := h.heapBytes_eq
  unfold copy at hmade
  split at hmade
  · next hlarge =>
    cases hmade
    have hsound : Sound { obj with onHeap := true } := ⟨h.fixed, h.large, h.small, by simp [hlarge]⟩
    refine ⟨hsound, ?_⟩
    rw [stackCounter_add, hsound.heapBytes_eq, if_pos hlarge]
  · next hsmall =>
    cases hmade
    exact ⟨⟨h.fixed, h.large, h.small, by simp [hsmall]⟩, (Int.add_zero _).symm⟩

/-- The counter is told once more of what is given back. -/
theorem assign_spec {self : Bool} (h : o.Sound) (hobj : obj.Sound)
    (hfixed : o.FIXED_SIZE = obj.FIXED_SIZE) (hassign : o.assign m obj self = (m', o')) :
    o'.Sound ∧ stackCounter m' = stackCounter m + o.heapBytes + o'.heapBytes := by
  have hbytes := h.heapBytes_eq
  have hlarge := hobj.large
  by_cases hheap : o.FIXED_SIZE < obj.buf.capacity
  · simp only [assign, hheap, if_true] at hassign
    cases hassign
    have hsound : Sound ⟨o.FIXED_SIZE,
        ⟨if self then List.replicate obj.buf.size 0 else obj.buf.content, obj.buf.capacity⟩, true⟩ :=
      ⟨h.fixed, Nat.le_of_lt hheap, hobj.small, by simp [hheap]⟩
    refine ⟨hsound, ?_⟩
    rw [stackCounter_add, hsound.heapBytes_eq, if_pos hheap, hbytes]
    split
    · rw [stackCounter_add]
    · rw [Int.add_zero]
  · simp only [assign, hheap, if_false] at hassign
    cases hassign
    refine ⟨⟨h.fixed, hfixed ▸ hlarge, hobj.small, by simp [hheap]⟩, ?_⟩
    rw [show heapBytes ⟨o.FIXED_SIZE, obj.buf, false⟩ = 0 from rfl, Int.add_zero, hbytes]
    split
    · rw [stackCounter_add]
    · rw [Int.add_zero]

theorem destroy_counter (h : o.Sound) :
    stackCounter (o.destroy m) = stackCounter m - o.heapBytes := by
  rw [h.heapBytes_eq, destroy]
  split
  · rw [stackCounter_del]
  · rw [Int.sub_zero]

/-- Doublings reach `size` from the capacity below `2^31`, if it is not large enough. -/
def Reaches (o : StackObject) (size : Nat) : Prop :=
  o.buf.capacity < size →
    ∃ n, size < 2 ^ n * (o.buf.capacity + 1) ∧ 2 ^ n * (o.buf.capacity + 1) ≤ 2 ^ 31

/-- What `ensure` and `write` do to the storage of an object, and to the counter. -/
structure Grown (m : M) (o : StackObject) (size : Nat) (m' : M) (o' : StackObject) : Prop where
  fixed : o'.FIXED_SIZE = o.FIXED_SIZE
  large : o.FIXED_SIZE ≤ o'.buf.capacity
  heap : o'.onHeap = true ↔ o.FIXED_SIZE < o'.buf.capacity
  small_iff : o'.buf.capacity < 2 ^ 31 ↔ o.Reaches size
  counter_iff : stackCounter m' = stackCounter m - o.heapBytes + o'.heapBytes ↔ o.Reaches size

theorem Grown.sound (h : o.Sound) (hgrown : Grown m o size m' o') (hreaches : o.Reaches size) :
    o'.Sound where
  fixed := hgrown.fixed ▸ h.fixed
  large := hgrown.fixed ▸ hgrown.large
  small := hgrown.small_iff.mpr hreaches
  heap := hgrown.fixed ▸ hgrown.heap

theorem ensure_grown (h : o.Sound) (hsize : size < 2 ^ 32)
    (hensure : o.ensure m size = .ok (m', o')) : Grown m o size m' o' := by
  have hsmall := h.small
  unfold ensure at hensure
  split at hensure
  · next henough =>
    cases hensure
    have hreaches : o.Reaches size := fun hlt => absurd hlt (Nat.not_lt.mpr henough)
    exact ⟨rfl, h.large, h.heap, iff_of_true h.small hreaches, iff_of_true (by omega) hreaches⟩
  next hmore =>
  obtain ⟨k, w, hk, hgrows⟩ := exists_grows_word hsize (show o.buf.capacity < 2 ^ 32 by omega)
  rw [StackBuffer.ensure_grows hgrows hk] at hensure
  cases hensure
  have henough := hgrows.enough
  have hword := hgrows.word (by omega)
  have hlarge := h.large
  have hiff : w < 2 ^ 31 ↔ o.Reaches size := by
    rw [hgrows.small_iff]
    exact ⟨fun hn _ => hn, fun hn => hn (by omega)⟩
  refine ⟨rfl, by dsimp only; omega, ?_, hiff, ?_⟩
  · exact iff_of_true rfl (by dsimp only; omega)
  rw [← hiff, ← toInt32_eq_iff hword, h.heapBytes_eq]
  simp only [heapBytes, if_true]
  split
  · rw [stackCounter_del, stackCounter_add]
    omega
  · rw [stackCounter_add]
    omega

theorem write_grown {pos : Nat} {data : List UInt8} (h : o.Sound)
    (hwrite : o.write m pos data = .ok (m', o')) :
    Grown m o (add32 pos data.length) m' o' := by
  obtain ⟨_, -, hwrite⟩ := of_bind_ok hwrite
  obtain ⟨⟨m₁, o₁⟩, hensure, hwrite⟩ := of_bind_ok hwrite
  obtain ⟨content, -, ho'⟩ := of_bind_ok hwrite
  cases ho'
  have hgrown := ensure_grown h (Nat.mod_lt _ (by decide)) hensure
  exact { hgrown with }

end StackObject

namespace StackObjects

open StackObject

variable {s t : StackObjects M} {op : StackOp} {ops : List StackOp}

def heapBytes (s : StackObjects M) : Int := (s.objects.map StackObject.heapBytes).sum

/-- The counter is the number of bytes that the objects have on the heap. -/
def Balanced (s : StackObjects M) : Prop := stackCounter s.monitor = s.heapBytes

def Sound (s : StackObjects M) : Prop := ∀ o ∈ s.objects, o.Sound

/-- An operation that is counted right.  It makes no object from bytes that its own storage can take
(unless that has no bytes), assigns to no object on the heap, and gives none a capacity of more than
an int32. -/
def Counted (s : StackObjects M) : StackOp → Prop
  | .constructFrom FIXED_SIZE buf _ =>
    (FIXED_SIZE < buf.length ∨ FIXED_SIZE = 0) ∧ buf.length < 2 ^ 31
  | .assign i _ => ∀ o, s.objects[i]? = some o → o.onHeap = false
  | .ensure i size => ∀ o, s.objects[i]? = some o → o.Reaches size
  | .write i pos data => ∀ o, s.objects[i]? = some o → o.Reaches (add32 pos data.length)
  | .construct _ | .copy _ | .destroy _ => True

omit [ResourceMonitor M] in
theorem Sound.of_getElem? (h : s.Sound) {i : Nat} (ho : s.objects[i]? = some o) : o.Sound :=
  h o (List.mem_of_getElem? ho)

/-! ### The bytes of all objects -/

omit [ResourceMonitor M] in
theorem heapBytes_append (s : StackObjects M) (m : M) (o : StackObject) :
    heapBytes ⟨m, s.objects ++ [o]⟩ = s.heapBytes + o.heapBytes := by
  simp [heapBytes]

omit [ResourceMonitor M] in
theorem heapBytes_set (m : M) {i : Nat} (ho : s.objects[i]? = some o) :
    heapBytes ⟨m, s.objects.set i o'⟩ = s.heapBytes - o.heapBytes + o'.heapBytes := by
  obtain ⟨hi, rfl⟩ := List.getElem?_eq_some_iff.mp ho
  simp only [heapBytes, List.map_set, List.sum_set', List.length_map, hi, dite_true,
    List.getElem_map]
  omega

omit [ResourceMonitor M] in
theorem heapBytes_eraseIdx (m : M) {i : Nat} (ho : s.objects[i]? = some o) :
    heapBytes ⟨m, s.objects.eraseIdx i⟩ = s.heapBytes - o.heapBytes := by
  obtain ⟨hi, rfl⟩ := List.getElem?_eq_some_iff.mp ho
  have hsum := List.CommMonoid.add_sum_eraseIdx (l := s.objects.map StackObject.heapBytes) (i := i)
    (by simpa using hi)
  rw [List.getElem_map, List.eraseIdx_map] at hsum
  simp only [heapBytes]
  omega

/-! ### Steps -/

theorem Grown.balanced_iff {i : Nat} (hbalanced : s.Balanced) (ho : s.objects[i]? = some o)
    (hgrown : Grown s.monitor o size m o') :
    Balanced ⟨m, s.objects.set i o'⟩ ↔ o.Reaches size := by
  rw [← hgrown.counter_iff, Balanced, heapBytes_set m ho, ← hbalanced]

/-- A step after which the counter is right is one that is counted right. -/
theorem balanced_step_iff (h : s.Sound) (hbalanced : s.Balanced) (hstep : s.Step op t) :
    t.Balanced ↔ s.Counted op := by
  have hcounter : stackCounter s.monitor = s.heapBytes := hbalanced
  have one {P : StackObject → Prop} {i : Nat} {o : StackObject} (ho : s.objects[i]? = some o) :
      P o ↔ ∀ o', s.objects[i]? = some o' → P o' := by simp [ho]
  cases hstep with
  | construct =>
    refine iff_of_true ?_ trivial
    rw [Balanced, heapBytes_append, hcounter]
    exact (Int.add_zero _).symm
  | constructFrom hfixed hsize hmade =>
    rw [Balanced, heapBytes_append, ← hcounter]
    exact constructFrom_counter_iff hfixed hmade hsize
  | copy hobj hmade =>
    refine iff_of_true ?_ trivial
    rw [Balanced, heapBytes_append, (copy_spec (h.of_getElem? hobj) hmade).2, hcounter]
  | @assign i _ o _ o' _ ho hobj hfixed hassign =>
    have hsound := h.of_getElem? ho
    have hcount := (assign_spec hsound (h.of_getElem? hobj) hfixed hassign).2
    rw [Counted, ← one ho, Balanced, heapBytes_set _ ho, hcount, hcounter]
    -- the counter is off by twice what was given back
    cases hheap : o.onHeap with
    | false => simp [StackObject.heapBytes, hheap]
    | true =>
      have hlarge := hsound.heap.mp hheap
      have hbytes : o.heapBytes = o.buf.capacity := if_pos hheap
      simp only [hbytes, reduceCtorEq, iff_false]
      omega
  | ensure ho hsize hensure =>
    rw [Counted, ← one ho]
    exact Grown.balanced_iff hbalanced ho (ensure_grown (h.of_getElem? ho) hsize hensure)
  | write ho hwrite =>
    rw [Counted, ← one ho]
    exact Grown.balanced_iff hbalanced ho (write_grown (h.of_getElem? ho) hwrite)
  | destroy ho =>
    refine iff_of_true ?_ trivial
    rw [Balanced, heapBytes_eraseIdx _ ho, destroy_counter (h.of_getElem? ho), hcounter]

theorem sound_step (h : s.Sound) (hcounted : s.Counted op) (hstep : s.Step op t) : t.Sound := by
  have added {m : M} {o : StackObject} (ho : o.Sound) : Sound (M := M) ⟨m, s.objects ++ [o]⟩ := by
    intro o' ho'
    rcases List.mem_append.mp ho' with hold | hnew
    · exact h o' hold
    · rwa [List.mem_singleton.mp hnew]
  have changed {m : M} {i : Nat} {o : StackObject} (ho : o.Sound) :
      Sound (M := M) ⟨m, s.objects.set i o⟩ := by
    intro o' ho'
    rcases List.mem_or_eq_of_mem_set ho' with hold | rfl
    · exact h o' hold
    · exact ho
  cases hstep with
  | construct hfixed => exact added (construct_sound hfixed)
  | constructFrom hfixed hsize hmade => exact added (constructFrom_sound hfixed hmade hcounted.2)
  | copy hobj hmade => exact added (copy_spec (h.of_getElem? hobj) hmade).1
  | assign ho hobj hfixed hassign =>
    exact changed (assign_spec (h.of_getElem? ho) (h.of_getElem? hobj) hfixed hassign).1
  | ensure ho hsize hensure =>
    have hsound := h.of_getElem? ho
    exact changed ((ensure_grown hsound hsize hensure).sound hsound (hcounted _ ho))
  | write ho hwrite =>
    have hsound := h.of_getElem? ho
    exact changed ((write_grown hsound hwrite).sound hsound (hcounted _ ho))
  | destroy ho => exact fun o' ho' => h o' (List.mem_of_mem_eraseIdx ho')

/-! ### Runs -/

/-- In exactly those runs all of whose operations are counted right, the counter is always the number
of bytes that the objects have on the heap. -/
theorem balanced_run_iff : Run (fun s op t => s.Step op t ∧ t.Balanced) (init : StackObjects M) ops s ↔
    Run (fun s op t => s.Step op t ∧ s.Counted op) init ops s := by
  refine Run.iff_of_inv (fun s => s.Sound ∧ s.Balanced) ?_ ?_
    ⟨nofun, ResourceMonitor.counter_new StackName⟩
  · rintro s op t ⟨hsound, hbalanced⟩
    exact and_congr_right fun hstep => balanced_step_iff hsound hbalanced hstep
  · rintro s op t ⟨hsound, hbalanced⟩ ⟨hstep, hbalanced'⟩
    have hcounted := (balanced_step_iff hsound hbalanced hstep).mp hbalanced'
    exact ⟨sound_step hsound hcounted hstep, hbalanced'⟩

/-- The monitor after an object for 2 bytes was made from one byte, and after one that has 5 bytes on
the heap was assigned to. -/
theorem counted_twice : let _ := ResourceMonitor.values
    (∃ (ops : List StackOp) (s : StackObjects (String → Int)), Run Step init ops s ∧
      stackCounter s.monitor = 2 ∧ s.heapBytes = 0 ∧
      ¬Run (fun s op t => s.Step op t ∧ t.Balanced) init ops s) ∧
    ∃ (ops : List StackOp) (s : StackObjects (String → Int)), Run Step init ops s ∧
      stackCounter s.monitor = 10 ∧ s.heapBytes = 0 ∧
      ¬Run (fun s op t => s.Step op t ∧ t.Balanced) init ops s := by
  let _ := ResourceMonitor.values
  have hlast {ops : List StackOp} {s : StackObjects (String → Int)}
      (run : Run (fun s op t => s.Step op t ∧ t.Balanced) init ops s) :
      stackCounter s.monitor = s.heapBytes :=
    run.invariant Balanced (fun _ _ _ _ hstep => hstep.2) rfl
  constructor
  · have run := Run.single (show Step (init : StackObjects (String → Int)) (.constructFrom 2 [1] 1) _
      from .constructFrom (by decide) (by decide) rfl)
    exact ⟨_, _, run, by decide, by decide, fun run => absurd (hlast run) (by decide)⟩
  · have hmade := Run.single (show Step (init : StackObjects (String → Int)) (.construct 2) _
      from .construct (by decide))
    have hgrown := hmade.snoc (show Step _ (.ensure 0 3) _ from .ensure rfl (by decide) rfl)
    have hother := hgrown.snoc (show Step _ (.construct 2) _ from .construct (by decide))
    have run := hother.snoc (show Step _ (.assign 0 1) _ from .assign rfl rfl rfl rfl)
    exact ⟨_, _, run, by decide, by decide, fun run => absurd (hlast run) (by decide)⟩

end StackObjects

end ZlNet.Network
