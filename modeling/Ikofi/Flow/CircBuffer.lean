import Ikofi.Lib.Ring
import Ikofi.Wire

/-!
# The circular buffer of a channel

What has come for a program and could not be written yet waits in a circular
buffer. Its functions assert how the two positions and the number of used bytes
belong together. As long as no more is put in than is free and no more taken
than is used, the buffer is a queue and no assertion fails.
-/

namespace Ikofi.Flow

def maxCbufSize : Nat := 100000000

/-- `circbuffer`. The store is allocated by the first write. -/
structure Circbuffer where
  data : Option Bytes := none
  size : Nat
  used : Nat := 0
  readpos : Nat := 0
  writepos : Nat := 0
  deriving DecidableEq, Repr

def cbufNew (size : Nat) : Except Halt Circbuffer :=
  if maxCbufSize < size then dropbearExit "Bad cbuf size" else .ok { size := size }

def cbufGetused (c : Circbuffer) : Nat := c.used

def cbufGetavail (c : Circbuffer) : Nat := c.size - c.used

/-- How much can be written in one piece. -/
def cbufWritelen (c : Circbuffer) : Except Halt Nat := do
  dropbearAssert (c.used ≤ c.size) "cbuf->used <= cbuf->size"
  dropbearAssert ((2 * c.size + c.writepos - c.readpos) % c.size = c.used % c.size)
    "((2*cbuf->size)+cbuf->writepos-cbuf->readpos)%cbuf->size == cbuf->used%cbuf->size"
  dropbearAssert ((2 * c.size + c.readpos - c.writepos) % c.size = (c.size - c.used) % c.size)
    "((2*cbuf->size)+cbuf->readpos-cbuf->writepos)%cbuf->size == (cbuf->size-cbuf->used)%cbuf->size"
  if c.used = c.size then return 0
  else if c.writepos < c.readpos then return c.readpos - c.writepos
  else return c.size - c.writepos

/-- The two pieces of the store that hold what is to be read. -/
def cbufReadptrs (c : Circbuffer) : Bytes × Bytes :=
  let store := c.data.getD []
  let len1 := min c.used (c.size - c.readpos)
  ((store.drop c.readpos).take len1, store.take (c.used - len1))

/-- The pointer is at the write position, which stays where it is. -/
def cbufWriteptr (c : Circbuffer) (len : Nat) : Except Halt Circbuffer := do
  if (← cbufWritelen c) < len then dropbearExit "Bad cbuf write"
  else return { c with data := some (c.data.getD (List.replicate c.size 0)) }

/-- `memcpy` to the pointer that `cbuf_writeptr` returned. -/
def Circbuffer.copy (c : Circbuffer) (s : Bytes) : Circbuffer :=
  { c with data := c.data.map fun store => Ring.overwrite store c.writepos s }

def cbufIncrwrite (c : Circbuffer) (len : Nat) : Except Halt Circbuffer := do
  if (← cbufWritelen c) < len then dropbearExit "Bad cbuf write"
  else
    dropbearAssert (c.used + len ≤ c.size) "cbuf->used <= cbuf->size"
    return { c with used := c.used + len, writepos := (c.writepos + len) % c.size }

def cbufIncrread (c : Circbuffer) (len : Nat) : Except Halt Circbuffer := do
  dropbearAssert (len ≤ c.used) "cbuf->used >= len"
  return { c with used := c.used - len, readpos := (c.readpos + len) % c.size }

/-- A copy to the pointer, and the position moved behind it. -/
def cbufWrite (c : Circbuffer) (s : Bytes) : Except Halt Circbuffer := do
  let c ← cbufWriteptr c s.length
  cbufIncrwrite (c.copy s) s.length

/-- The loop at the end of `common_recv_msg_channel_data`, for at most so many turns.
Nothing comes back if it has not ended by then. -/
def cbufFill : Nat → Circbuffer → Bytes → Except Halt (Option Circbuffer)
  | _, c, [] => .ok (some c)
  | 0, _, _ :: _ => .ok none
  | turns + 1, c, b :: s => do
    let buflen := min (← cbufWritelen c) (b :: s).length
    let c ← cbufWrite c ((b :: s).take buflen)
    cbufFill turns c ((b :: s).drop buflen)

namespace Circbuffer

/-- What the two positions and the number of used bytes have to do with each other. -/
structure Valid (c : Circbuffer) : Prop where
  positive : 0 < c.size
  small : c.size ≤ maxCbufSize
  used : c.used ≤ c.size
  readpos : c.readpos < c.size
  writepos : c.writepos = (c.readpos + c.used) % c.size
  store : ∀ store ∈ c.data, store.length = c.size
  unallocated : c.data = none → c.used = 0

/-- What the buffer holds, the oldest byte first. -/
def contents (c : Circbuffer) : Bytes := Ring.contents (c.data.getD []) c.readpos c.used

theorem length_contents {c : Circbuffer} (h : c.Valid) : c.contents.length = c.used := by
  cases data : c.data with
  | none => simp [contents, h.unallocated data]
  | some store =>
    refine Ring.length_contents ?_
    simpa [data, h.store store data] using h.used

theorem cbufNew_valid {size : Nat} (positive : 0 < size) (small : size ≤ maxCbufSize) :
    ∃ c, cbufNew size = .ok c ∧ c.Valid ∧ c.size = size ∧ c.contents = [] := by
  refine ⟨{ size := size }, if_neg (Nat.not_lt.mpr small), ?_, rfl, rfl⟩
  exact ⟨positive, small, Nat.zero_le _, positive, by simp, by simp, fun _ => rfl⟩

theorem readptrs_contents {c : Circbuffer} (h : c.Valid) :
    (cbufReadptrs c).1 ++ (cbufReadptrs c).2 = c.contents := by
  cases data : c.data with
  | none => simp [cbufReadptrs, contents, data, h.unallocated data]
  | some store =>
    have length : store.length = c.size := h.store store data
    have pieces := Ring.contents_pieces (length ▸ Nat.le_of_lt h.readpos) (length ▸ h.used)
    simp only [cbufReadptrs, contents, data, Option.getD_some, pieces, length]

/-- One piece reaches to the end of the store, or to the place where reading begins. -/
theorem writelen_ok {c : Circbuffer} (h : c.Valid) :
    ∃ n, cbufWritelen c = .ok n ∧ n ≤ cbufGetavail c ∧ c.writepos + n ≤ c.size ∧
      (0 < cbufGetavail c → 0 < n) ∧ (n < cbufGetavail c → c.writepos + n = c.size) := by
  obtain ⟨positive, -, used, readpos, writepos, -, -⟩ := h
  have place : c.readpos + c.used < c.size ∧ c.writepos = c.readpos + c.used ∨
      c.size ≤ c.readpos + c.used ∧ c.writepos = c.readpos + c.used - c.size := by
    rcases Nat.lt_or_ge (c.readpos + c.used) c.size with inside | past
    · exact .inl ⟨inside, writepos.trans (Nat.mod_eq_of_lt inside)⟩
    · refine .inr ⟨past, ?_⟩
      rw [writepos, Nat.mod_eq_sub_mod past, Nat.mod_eq_of_lt (by omega)]
  have forward : (2 * c.size + c.writepos - c.readpos) % c.size = c.used % c.size := by
    rcases place with ⟨_, p⟩ | ⟨_, p⟩
    · rw [show 2 * c.size + c.writepos - c.readpos = c.used + c.size * 2 by omega,
        Nat.add_mul_mod_self_left]
    · rw [show 2 * c.size + c.writepos - c.readpos = c.used + c.size * 1 by omega,
        Nat.add_mul_mod_self_left]
  have backward : (2 * c.size + c.readpos - c.writepos) % c.size =
      (c.size - c.used) % c.size := by
    rcases place with ⟨_, p⟩ | ⟨_, p⟩
    · rw [show 2 * c.size + c.readpos - c.writepos = c.size - c.used + c.size * 1 by omega,
        Nat.add_mul_mod_self_left]
    · rw [show 2 * c.size + c.readpos - c.writepos = c.size - c.used + c.size * 2 by omega,
        Nat.add_mul_mod_self_left]
  simp only [cbufWritelen, dropbearAssert, used, forward, backward, decide_true, if_true,
    cbufGetavail, bind, Except.bind, pure, Except.pure]
  by_cases full : c.used = c.size
  · exact ⟨0, if_pos full, by omega, by omega, by omega, by omega⟩
  · rw [if_neg full]
    by_cases round : c.writepos < c.readpos
    · exact ⟨_, if_pos round, by omega, by omega, by omega, by omega⟩
    · exact ⟨_, if_neg round, by omega, by omega, by omega, by omega⟩

/-- One turn of the loop: the store is there, the bytes are copied, the position moves. -/
theorem write_ok {c : Circbuffer} (h : c.Valid) {s : Bytes} {n : Nat}
    (len : cbufWritelen c = .ok n) (fits : s.length ≤ n) :
    ∃ d, cbufWrite c s = .ok d ∧ d.Valid ∧ d.contents = c.contents ++ s ∧ d.size = c.size ∧
      d.used = c.used + s.length ∧ d.writepos = (c.writepos + s.length) % c.size := by
  obtain ⟨m, len', avail, straight, -⟩ := writelen_ok h
  obtain rfl : n = m := by
    rw [len] at len'
    exact Except.ok.inj len'
  set store := c.data.getD (List.replicate c.size 0) with hstore
  have length : store.length = c.size := by
    cases data : c.data with
    | none => simp [hstore, data]
    | some old => simpa [hstore, data] using h.store old data
  have held : c.contents = Ring.contents store c.readpos c.used := by
    cases data : c.data with
    | none => simp [contents, h.unallocated data]
    | some old => simp [contents, hstore, data]
  have enough : ¬ n < s.length := Nat.not_lt.mpr fits
  have room : c.used + s.length ≤ c.size := by
    have := h.used
    unfold cbufGetavail at avail
    omega
  refine ⟨{ c with
    data := some (Ring.overwrite store c.writepos s)
    used := c.used + s.length
    writepos := (c.writepos + s.length) % c.size }, ?_, ?_, ?_, rfl, rfl, rfl⟩
  · have ptr : cbufWriteptr c s.length = .ok { c with data := some store } := by
      simp only [cbufWriteptr, len, bind, Except.bind, enough, if_false, hstore, pure, Except.pure]
    have again : cbufWritelen { c with data := some (Ring.overwrite store c.writepos s) } = .ok n :=
      len
    rw [cbufWrite, ptr]
    simp only [Except.bind, cbufIncrwrite, bind, copy, Option.map_some, again, enough, if_false,
      dropbearAssert, room, decide_true, if_true, pure, Except.pure]
  · refine ⟨h.positive, h.small, room, h.readpos, ?_, ?_, by simp⟩
    · change (c.writepos + s.length) % c.size = (c.readpos + (c.used + s.length)) % c.size
      rw [h.writepos, Nat.mod_add_mod, Nat.add_assoc]
    · rintro _ ⟨⟩
      exact (Ring.length_overwrite (by omega)).trans length
  · have place := h.writepos
    rw [← length] at place
    rw [held, contents, Option.getD_some, place]
    refine Ring.contents_overwrite (by rw [length]; exact h.readpos) (by omega) ?_
    rw [← place]
    omega

theorem incrread_ok {c : Circbuffer} (h : c.Valid) {k : Nat} (le : k ≤ c.used) :
    ∃ d, cbufIncrread c k = .ok d ∧ d.Valid ∧ d.contents = c.contents.drop k ∧ d.size = c.size ∧
      d.used = c.used - k := by
  refine ⟨{ c with used := c.used - k, readpos := (c.readpos + k) % c.size }, ?_, ?_, ?_, rfl,
    rfl⟩
  · simp [cbufIncrread, dropbearAssert, le, bind, Except.bind, pure, Except.pure]
  · refine ⟨h.positive, h.small, Nat.le_trans (Nat.sub_le _ _) h.used, Nat.mod_lt _ h.positive, ?_,
      h.store, fun data => ?_⟩
    · change c.writepos = ((c.readpos + k) % c.size + (c.used - k)) % c.size
      rw [h.writepos, Nat.mod_add_mod, Nat.add_assoc, Nat.add_sub_cancel' le]
    · change c.used - k = 0
      rw [h.unallocated data, Nat.zero_sub]
  · cases data : c.data with
    | none => simp [contents, h.unallocated data]
    | some store =>
      have length := h.store store data
      have rest : (Ring.contents store c.readpos c.used).drop k = _ :=
        Ring.drop_contents le (length ▸ h.used)
      simpa only [contents, data, Option.getD_some, length] using rest.symm

/-- A turn that has room for everything is the last one. -/
theorem fill_last {c : Circbuffer} (h : c.Valid) {s : Bytes} {n : Nat}
    (len : cbufWritelen c = .ok n) (fits : s.length ≤ n) (nonempty : s ≠ []) (turns : Nat) :
    ∃ d, cbufFill (turns + 1) c s = .ok (some d) ∧ d.Valid ∧ d.contents = c.contents ++ s ∧
      d.size = c.size := by
  obtain ⟨d, turn, valid, holds, size, -⟩ := write_ok h len fits
  refine ⟨d, ?_, valid, holds, size⟩
  cases s with
  | nil => exact absurd rfl nonempty
  | cons b s =>
    simp only [cbufFill, len, bind, Except.bind, Nat.min_eq_right fits, List.take_length, turn,
      List.drop_length]

/-- Two turns copy whatever there is room for: the first may end at the end of the store,
the second then begins at its front. -/
theorem fill_ok {c : Circbuffer} (h : c.Valid) {s : Bytes} (room : s.length ≤ cbufGetavail c)
    {turns : Nat} (enough : 2 ≤ turns ∨ s.length ≤ turns) :
    ∃ d, cbufFill turns c s = .ok (some d) ∧ d.Valid ∧ d.contents = c.contents ++ s ∧
      d.size = c.size := by
  cases s with
  | nil => exact ⟨c, by cases turns <;> rfl, h, (List.append_nil _).symm, rfl⟩
  | cons b s =>
    obtain ⟨n, len, le, straight, free, wraps⟩ := writelen_ok h
    simp only [List.length_cons] at room enough
    obtain ⟨turns, rfl⟩ : ∃ t, turns = t + 1 := ⟨turns - 1, by omega⟩
    rcases Nat.lt_or_ge n (b :: s).length with first | all
    · have length : ((b :: s).take n).length = n := List.length_take_of_le (Nat.le_of_lt first)
      obtain ⟨d, turn, valid, holds, size, used, writepos⟩ :=
        write_ok h (s := (b :: s).take n) len (Nat.le_of_eq length)
      rw [length] at used writepos
      have front : d.writepos = 0 := by
        rw [writepos, wraps (by simp only [List.length_cons] at first; omega), Nat.mod_self]
      obtain ⟨m, len', -, -, -, whole⟩ := writelen_ok valid
      have rest : ((b :: s).drop n).length ≤ m := by
        simp only [List.length_drop, List.length_cons]
        have avail : cbufGetavail d = cbufGetavail c - n := by
          simp only [cbufGetavail, size, used]
          omega
        by_contra short
        have := whole (by omega)
        have := h.used
        unfold cbufGetavail at *
        omega
      simp only [List.length_cons] at first
      have positive : 0 < n := free (by omega)
      obtain ⟨turns, rfl⟩ : ∃ t, turns = t + 1 := ⟨turns - 1, by omega⟩
      obtain ⟨e, last, valid', holds', size'⟩ := fill_last valid len' rest
        (by rw [Ne, List.drop_eq_nil_iff, List.length_cons]; omega) turns
      refine ⟨e, ?_, valid', ?_, size'.trans size⟩
      · rw [cbufFill]
        simp only [len, bind, Except.bind, List.length_cons, Nat.min_eq_left (Nat.le_of_lt first),
          turn, last]
      · rw [holds', holds, List.append_assoc, List.take_append_drop]
    · exact fill_last h len all (by simp) turns

/-- More than there is room for: the buffer fills up and the loop does not end. -/
theorem fill_stuck {c : Circbuffer} (h : c.Valid) {s : Bytes} (beyond : cbufGetavail c < s.length)
    (turns : Nat) : cbufFill turns c s = .ok none := by
  induction turns generalizing c s with
  | zero =>
    cases s with
    | nil => simp at beyond
    | cons b s => rfl
  | succ turns ih =>
    cases s with
    | nil => simp at beyond
    | cons b s =>
      obtain ⟨n, len, le, -⟩ := writelen_ok h
      have length : ((b :: s).take n).length = n := List.length_take_of_le (by omega)
      obtain ⟨d, turn, valid, -, size, used, -⟩ :=
        write_ok h (s := (b :: s).take n) len (Nat.le_of_eq length)
      have shorter : cbufGetavail d < ((b :: s).drop n).length := by
        rw [List.length_drop]
        simp only [cbufGetavail, size, used, length] at beyond le ⊢
        omega
      rw [cbufFill]
      simp only [len, bind, Except.bind, Nat.min_eq_left (show n ≤ (b :: s).length by omega), turn,
        ih valid shorter]

/-- What is done with the buffer: bytes are copied in, and bytes that were read out are
dropped. -/
inductive Op
  | put (s : Bytes)
  | take (k : Nat)

def Op.turn (c : Circbuffer) : Op → Except Halt (Option Circbuffer)
  | put s => cbufFill s.length c s
  | take k => (cbufIncrread c k).map some

def run (c : Circbuffer) : List Op → Except Halt (Option Circbuffer)
  | [] => .ok (some c)
  | op :: ops => do
    match ← op.turn c with
    | some c => run c ops
    | none => return none

/-- The same on a queue that holds at most `size` bytes. -/
def Op.queue (size : Nat) (q : Bytes) : Op → Option Bytes
  | put s => if q.length + s.length ≤ size then some (q ++ s) else none
  | take k => if k ≤ q.length then some (q.drop k) else none

/-- Where the queue allows an operation, the buffer does the same. -/
theorem turn_of_queue {c : Circbuffer} (h : c.Valid) {op : Op} {q : Bytes}
    (abstract : op.queue c.size c.contents = some q) :
    ∃ d, op.turn c = .ok (some d) ∧ d.Valid ∧ d.size = c.size ∧ d.contents = q := by
  have used := h.used
  cases op with
  | put s =>
    simp only [Op.queue, length_contents h, Option.ite_none_right_eq_some,
      Option.some.injEq] at abstract
    obtain ⟨room, rfl⟩ := abstract
    obtain ⟨d, fill, valid, holds, size⟩ :=
      fill_ok h (s := s) (by unfold cbufGetavail; omega) (.inr (Nat.le_refl _))
    exact ⟨d, fill, valid, size, holds⟩
  | take k =>
    simp only [Op.queue, length_contents h, Option.ite_none_right_eq_some,
      Option.some.injEq] at abstract
    obtain ⟨le, rfl⟩ := abstract
    obtain ⟨d, read, valid, holds, size, -⟩ := incrread_ok h le
    exact ⟨d, by rw [Op.turn, read]; rfl, valid, size, holds⟩

/-- Where the queue does not allow an operation, the buffer does not come to its end. -/
theorem turn_of_queue_none {c : Circbuffer} (h : c.Valid) {op : Op}
    (abstract : op.queue c.size c.contents = none) (d : Circbuffer) :
    op.turn c ≠ .ok (some d) := by
  have used := h.used
  cases op with
  | put s =>
    simp only [Op.queue, length_contents h, ite_eq_right_iff, reduceCtorEq, imp_false,
      Nat.not_le] at abstract
    simp [Op.turn, fill_stuck h (s := s) (by unfold cbufGetavail; omega)]
  | take k =>
    simp only [Op.queue, length_contents h, ite_eq_right_iff, reduceCtorEq, imp_false] at abstract
    simp [Op.turn, cbufIncrread, dropbearAssert, abstract, dropbearExit, bind, Except.bind,
      Except.map]

theorem run_of_queue {c : Circbuffer} (h : c.Valid) {ops : List Op} {q : Bytes}
    (abstract : ops.foldlM (Op.queue c.size) c.contents = some q) :
    ∃ d, c.run ops = .ok (some d) ∧ d.Valid ∧ d.size = c.size ∧ d.contents = q := by
  induction ops generalizing c with
  | nil => exact ⟨c, rfl, h, rfl, Option.some.inj abstract⟩
  | cons op ops ih =>
    simp only [List.foldlM_cons, Option.bind_eq_bind, Option.bind_eq_some_iff] at abstract
    obtain ⟨mid, first, rest⟩ := abstract
    obtain ⟨d, turn, valid, size, rfl⟩ := turn_of_queue h first
    rw [← size] at rest
    obtain ⟨e, rest, valid', size', holds⟩ := ih valid rest
    exact ⟨e, by simp only [run, turn, bind, Except.bind, rest], valid', size'.trans size, holds⟩

theorem queue_of_run {c d : Circbuffer} (h : c.Valid) {ops : List Op}
    (whole : c.run ops = .ok (some d)) :
    ops.foldlM (Op.queue c.size) c.contents = some d.contents := by
  induction ops generalizing c with
  | nil =>
    obtain rfl : c = d := Option.some.inj (Except.ok.inj whole)
    rfl
  | cons op ops ih =>
    obtain ⟨result, turn, rest⟩ := bind_ok.mp whole
    cases abstract : op.queue c.size c.contents with
    | none =>
      cases result with
      | none => cases rest
      | some mid => exact absurd turn (turn_of_queue_none h abstract mid)
    | some q =>
      obtain ⟨mid, turn', valid, size, rfl⟩ := turn_of_queue h abstract
      obtain rfl : result = some mid := Except.ok.inj (turn.symm.trans turn')
      simp only [List.foldlM_cons, Option.bind_eq_bind, abstract, Option.bind_some]
      rw [← size]
      exact ih valid rest

/-- A new buffer is a queue: a sequence of copies and reads goes through exactly if it does
on a queue of bounded length, and then leaves the same bytes to be read and the same room. -/
theorem new_run_queue {size : Nat} (positive : 0 < size) (small : size ≤ maxCbufSize)
    (ops : List Op) :
    ∃ c, cbufNew size = .ok c ∧ ∀ q, ops.foldlM (Op.queue size) [] = some q ↔
      ∃ d, c.run ops = .ok (some d) ∧ (cbufReadptrs d).1 ++ (cbufReadptrs d).2 = q ∧
        cbufGetused d = q.length ∧ cbufGetavail d = size - q.length := by
  obtain ⟨c, new, valid, rfl, empty⟩ := cbufNew_valid positive small
  refine ⟨c, new, fun q => ?_⟩
  rw [← empty]
  constructor
  · intro abstract
    obtain ⟨d, whole, valid', size', rfl⟩ := run_of_queue valid abstract
    refine ⟨d, whole, readptrs_contents valid', (length_contents valid').symm, ?_⟩
    rw [length_contents valid', ← size', cbufGetavail]
  · rintro ⟨d, whole, read, used, -⟩
    have abstract := queue_of_run valid whole
    obtain ⟨d', whole', valid', -, -⟩ := run_of_queue valid abstract
    obtain rfl : d = d' := Option.some.inj (Except.ok.inj (whole.symm.trans whole'))
    rw [abstract, ← read, readptrs_contents valid']

/-- The second copy goes round the end of the buffer. -/
def wrapping : List Op := [.put [1, 2, 3], .take 2, .put [4, 5, 6], .take 1]

example : (cbufNew 4 >>= (·.run wrapping)).map (·.map cbufReadptrs) = .ok (some ([4], [5, 6])) :=
  rfl

theorem new_run_queue_wrapping : ∃ c, cbufNew 4 = .ok c ∧ ∃ d, c.run wrapping = .ok (some d) ∧
    (cbufReadptrs d).1 ++ (cbufReadptrs d).2 = [4, 5, 6] ∧ cbufGetused d = 3 ∧
      cbufGetavail d = 1 := by
  have positive : 0 < 4 := by decide
  obtain ⟨c, new, refines⟩ := new_run_queue positive (by decide) wrapping
  exact ⟨c, new, (refines [4, 5, 6]).mp rfl⟩

end Circbuffer

end Ikofi.Flow
