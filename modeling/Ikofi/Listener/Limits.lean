import Ikofi.Listener.Model
import Mathlib.Data.List.Nodup
import Mathlib.Data.List.Perm.Basic

/-!
# How many clients wait

The pipes that the process holds are at least those of the children that have not let go, so
that its limits are limits on the children. Where `select` has reported every closed pipe they
are exactly these, and then no client is turned away without need.
-/

namespace Ikofi.Listener

open Runs

/-! ## The loop over the array -/

section
variable {remoteHost : Bytes} {n : Scan} {j : Nat} {slots : List (Option Preauth)}

theorem scan_total : (scan remoteHost n j slots).numUnauthedTotal =
    n.numUnauthedTotal + (slots.filterMap id).length := by
  induction slots generalizing n j with
  | nil => rfl
  | cons slot slots ih =>
    cases slot with
    | none => exact ih
    | some c =>
      rw [scan, ih]
      simp only [Scan.count, List.filterMap_cons, id, List.length_cons]
      omega

theorem scan_forAddr : (scan remoteHost n j slots).numUnauthedForAddr =
    n.numUnauthedForAddr + (slots.filterMap id).countP fun c => remoteHost = c.addr := by
  induction slots generalizing n j with
  | nil => rfl
  | cons slot slots ih =>
    cases slot with
    | none => exact ih
    | some c =>
      rw [scan, ih]
      by_cases same : remoteHost = c.addr
      · simp only [Scan.count, List.filterMap_cons, id, List.countP_cons, same, if_true, decide_true]
        omega
      · simp [Scan.count, same]

/-- The index is that of a free slot, unless there is none. -/
theorem scan_connIdx (remoteHost : Bytes) (n : Scan) (j : Nat) (slots : List (Option Preauth)) :
    (none ∉ slots ∧ (scan remoteHost n j slots).connIdx = n.connIdx) ∨
    ∃ i, slots[i]? = some none ∧ (scan remoteHost n j slots).connIdx = j + i := by
  induction slots generalizing n j with
  | nil => exact .inl ⟨List.not_mem_nil, rfl⟩
  | cons slot slots ih =>
    cases slot with
    | none =>
      rcases ih { n with connIdx := j } (j + 1) with ⟨-, idx⟩ | ⟨i, free, idx⟩
      · exact .inr ⟨0, rfl, idx⟩
      · refine .inr ⟨i + 1, free, ?_⟩
        rw [scan, idx]
        omega
    | some c =>
      rw [scan]
      rcases ih (n.count remoteHost c) (j + 1) with ⟨taken, idx⟩ | ⟨i, free, idx⟩
      · exact .inl ⟨by simpa using taken, idx⟩
      · refine .inr ⟨i + 1, free, ?_⟩
        rw [idx]
        omega

theorem none_mem_of_room (room : (slots.filterMap id).length < slots.length) : none ∈ slots := by
  induction slots with
  | nil => exact absurd room (Nat.lt_irrefl 0)
  | cons slot slots ih =>
    cases slot with
    | none => exact List.mem_cons_self
    | some c =>
      simp only [List.filterMap_cons, id, List.length_cons, Nat.add_lt_add_iff_right] at room
      exact List.mem_cons_of_mem _ (ih room)

/-- A free slot takes a client and no other client loses its own. -/
theorem set_perm {i : Nat} (c : Preauth) (free : slots[i]? = some none) :
    ((slots.set i (some c)).filterMap id).Perm (c :: slots.filterMap id) := by
  induction slots generalizing i with
  | nil => cases free
  | cons slot slots ih =>
    cases i with
    | zero =>
      obtain rfl : slot = none := by simpa using free
      rfl
    | succ i =>
      have rest := ih (i := i) (by simpa using free)
      cases slot with
      | none => exact rest
      | some d => exact (rest.cons d).trans (.swap c d _)

end

/-- The clients from one address. -/
def fromAddr (addr : Bytes) (clients : List Preauth) : Nat :=
  clients.countP fun c => addr = c.addr

theorem clients_length (p : Parent) : p.clients.length ≤ maxUnauthClients := by
  have short := List.length_filterMap_le id p.childpipes.toList
  rwa [Vector.length_toList] at short

/-! ## One connection -/

/-- What a connection does. -/
inductive Handles (p : Parent) (a : Attempt) : Parent × Outcome → Prop
  | closed : Handles p a (p, .closed)
  | lost : Handles p a
      ({ p with pipes := p.pipes + 1, descriptors := p.descriptors + 2 }, .lost)
  | child {host : Bytes} {q : Parent} : a.accept = some host →
      fromAddr host p.clients < maxUnauthPerIp → q.clients.Perm (⟨p.pipes, host⟩ :: p.clients) →
      q.pipes = p.pipes + 1 → q.descriptors = p.descriptors + 1 →
      Handles p a (q, .child ⟨p.pipes, host⟩)

theorem handle_handles (p : Parent) (a : Attempt) : Handles p a (handle p a) := by
  unfold handle
  cases accepted : a.accept with
  | none => exact .closed
  | some host =>
    dsimp only
    split
    · exact .closed
    rename_i room
    rw [scan_total, scan_forAddr, not_or, Nat.not_le, Nat.not_le, Nat.zero_add, Nat.zero_add]
      at room
    split
    · exact .closed
    split
    · exact .lost
    have free : none ∈ p.childpipes.toList := by
      apply none_mem_of_room
      rw [Vector.length_toList]
      exact room.1
    obtain ⟨i, slot, idx⟩ := (scan_connIdx host {} 0 p.childpipes.toList).resolve_left
      fun taken => taken.1 free
    refine .child accepted room.2 ?_ rfl rfl
    rw [Parent.clients, Vector.toList_setIfInBounds, idx, Nat.zero_add]
    exact set_perm _ slot

/-- Where nothing fails, a connection gets a child exactly if there is room for it. -/
theorem handle_child_iff {p : Parent} {host : Bytes} :
    (∃ c, (handle p ⟨some host, true, true⟩).2 = .child c) ↔
      p.clients.length < maxUnauthClients ∧ fromAddr host p.clients < maxUnauthPerIp := by
  unfold handle
  dsimp only
  rw [scan_total, scan_forAddr, Nat.zero_add, Nat.zero_add]
  split
  · rename_i full
    refine ⟨?_, fun room => ?_⟩
    · rintro ⟨c, h⟩
      cases h
    · exact absurd full (not_or.mpr ⟨Nat.not_le.mpr room.1, Nat.not_le.mpr room.2⟩)
  · rename_i room
    rw [not_or, Nat.not_le, Nat.not_le] at room
    exact ⟨fun _ => room, fun _ => ⟨_, rfl⟩⟩

/-! ## Closing the pipes -/

section
variable {p : Parent} {ready : List Nat}

theorem closeReady_clients : (closeReady p ready).clients =
    p.clients.filter fun c => !ready.contains c.pipe := by
  rw [Parent.clients, closeReady, Vector.toList_map, Parent.clients]
  induction p.childpipes.toList with
  | nil => rfl
  | cons slot slots ih =>
    rw [List.map_cons]
    cases slot with
    | none => exact ih
    | some c =>
      cases closed : !ready.contains c.pipe <;> simp_all [Option.filter]

theorem closeReady_descriptors (counted : p.clients.length ≤ p.descriptors) :
    (closeReady p ready).descriptors + p.clients.length =
      p.descriptors + (closeReady p ready).clients.length := by
  have slots : p.childpipes.toList.countP (fun slot => slot.any fun c => ready.contains c.pipe) =
      p.clients.countP fun c => ready.contains c.pipe := by
    rw [Parent.clients, List.countP_filterMap]
    congr
    funext slot
    cases slot <;> rfl
  have parts := List.length_eq_countP_add_countP (l := p.clients)
    fun c => ready.contains c.pipe
  have kept : (p.clients.filter fun c => !ready.contains c.pipe).length =
      p.clients.countP fun c => decide ¬ ready.contains c.pipe = true := by
    rw [← List.countP_eq_length_filter]
    congr
    funext c
    cases ready.contains c.pipe <;> rfl
  rw [closeReady_clients, kept]
  simp only [closeReady, slots]
  omega

end

/-! ## The process and its children -/

/-- What holds of the process and its children at any time. -/
structure Sound (listensockcount : Nat) (w : World) : Prop where
  numbered : ∀ c ∈ w.parent.clients, c.pipe < w.parent.pipes
  distinct : w.parent.clients.Nodup
  held : w.holding.Subperm w.parent.clients
  perAddr : ∀ addr, fromAddr addr w.parent.clients ≤ maxUnauthPerIp
  counted : w.parent.descriptors = listensockcount + w.parent.clients.length + 2 * w.lost

section
variable {listensockcount : Nat} {w v : World} {a : Attempt} {ready : List Nat}

theorem start_sound : Sound listensockcount (start listensockcount) where
  numbered := by
    intro c hc
    cases hc
  distinct := List.nodup_nil
  held := List.nil_subperm
  perAddr := fun _ => Nat.zero_le _
  counted := rfl

/-- The ways in which a connection changes the whole. -/
theorem attempt_cases (w : World) (a : Attempt) :
    w.attempt a = w ∨
    w.attempt a = { w with
      parent := { w.parent with
        pipes := w.parent.pipes + 1, descriptors := w.parent.descriptors + 2 }
      lost := w.lost + 1 } ∨
    ∃ host, ∃ q : Parent, fromAddr host w.parent.clients < maxUnauthPerIp ∧
      q.clients.Perm (⟨w.parent.pipes, host⟩ :: w.parent.clients) ∧
      q.pipes = w.parent.pipes + 1 ∧ q.descriptors = w.parent.descriptors + 1 ∧
      w.attempt a =
        { w with parent := q, holding := ⟨w.parent.pipes, host⟩ :: w.holding } := by
  have handles := handle_handles w.parent a
  unfold World.attempt
  generalize handle w.parent a = x at handles ⊢
  cases handles with
  | closed => exact .inl rfl
  | lost => exact .inr (.inl rfl)
  | @child host q _ room clients pipes descriptors =>
    exact .inr (.inr ⟨host, q, room, clients, pipes, descriptors, rfl⟩)

theorem attempt_sound (h : Sound listensockcount w) : Sound listensockcount (w.attempt a) := by
  rcases attempt_cases w a with
    same | lost | ⟨host, q, room, clients, pipes, descriptors, started⟩
  · rwa [same]
  · rw [lost]
    refine ⟨fun c hc => Nat.lt_succ_of_lt (h.numbered c hc), h.distinct, h.held, h.perAddr, ?_⟩
    have counted := h.counted
    dsimp only [Parent.clients] at counted ⊢
    omega
  · rw [started]
    have fresh : ⟨w.parent.pipes, host⟩ ∉ w.parent.clients := by
      intro old
      exact Nat.lt_irrefl _ (h.numbered _ old)
    refine ⟨?_, ?_, ?_, ?_, ?_⟩
    · intro c hc
      rw [pipes]
      obtain rfl | old := List.mem_cons.mp (clients.mem_iff.mp hc)
      · exact Nat.lt_succ_self _
      · exact Nat.lt_succ_of_lt (h.numbered c old)
    · exact clients.nodup_iff.mpr (List.nodup_cons.mpr ⟨fresh, h.distinct⟩)
    · exact ((List.subperm_cons _).mpr h.held).trans clients.symm.subperm
    · intro addr
      rw [fromAddr, clients.countP_eq, List.countP_cons]
      by_cases same : addr = host
      · subst same
        rw [fromAddr] at room
        simp only [decide_true, if_true]
        omega
      · have few := h.perAddr addr
        rw [fromAddr] at few
        simpa [same] using few
    · have counted := h.counted
      dsimp only
      rw [descriptors, clients.length_eq, List.length_cons]
      omega

theorem close_sound (h : Sound listensockcount w) (closed : w.Closed ready) :
    Sound listensockcount { w with parent := closeReady w.parent ready } := by
  refine ⟨?_, ?_, ?_, ?_, ?_⟩
  · intro c hc
    rw [closeReady_clients] at hc
    exact h.numbered c (List.mem_of_mem_filter hc)
  · rw [closeReady_clients]
    exact h.distinct.filter _
  · rw [closeReady_clients]
    have all : w.holding.filter (fun c => !ready.contains c.pipe) = w.holding := by
      rw [List.filter_eq_self]
      intro c hc
      rw [closed c hc]
      rfl
    exact all ▸ h.held.filter _
  · intro addr
    rw [closeReady_clients]
    exact Nat.le_trans List.filter_sublist.countP_le (h.perAddr addr)
  · have counted := h.counted
    have moved : (closeReady w.parent ready).descriptors + w.parent.clients.length =
        w.parent.descriptors + (closeReady w.parent ready).clients.length :=
      closeReady_descriptors (by omega)
    dsimp only
    omega

theorem attempts_sound {attempts : List Attempt} (h : Sound listensockcount w) :
    Sound listensockcount (attempts.foldl World.attempt w) := by
  induction attempts generalizing w with
  | nil => exact h
  | cons a attempts ih => exact ih (attempt_sound h)

theorem step_sound {act : Action} (h : Sound listensockcount w) (hs : step w act = some v) :
    Sound listensockcount v := by
  cases act with
  | letGo c =>
    rw [step] at hs
    split at hs <;> cases hs
    exact ⟨h.numbered, h.distinct, (List.erase_subperm c _).trans h.held, h.perAddr, h.counted⟩
  | round ready attempts =>
    rw [step] at hs
    split at hs <;> cases hs
    rename_i closed
    exact attempts_sound (close_sound h closed)

theorem run_sound {as : List Action} (h : Reached step (start listensockcount) as w) :
    Sound listensockcount w :=
  h.invariant start_sound fun _ _ _ before _ hs => step_sound before hs

/-- However children, connections and failures of the system fall together: no more than
thirty children have a client that is not authenticated, and no more than five of them one
from the same address. -/
theorem unauth_limited {as : List Action} (h : Reached step (start listensockcount) as w) :
    w.holding.length ≤ maxUnauthClients ∧
      ∀ addr, fromAddr addr w.holding ≤ maxUnauthPerIp := by
  have sound := run_sound h
  refine ⟨Nat.le_trans sound.held.length_le (clients_length _), fun addr => ?_⟩
  exact Nat.le_trans (sound.held.countP_le _) (sound.perAddr addr)

end

/-- Six clients from each of six addresses, and one from another. -/
def crowd : List Attempt :=
  (List.range 6).flatMap (fun host => List.replicate 6 ⟨some [UInt8.ofNat host], true, true⟩) ++
    [⟨some [6], true, true⟩]

/-- Five from each address have a child, and nobody else has. -/
theorem unauth_limited_crowd : ∃ w, step (start 1) (.round [] crowd) = some w ∧
    w.holding.length = 30 ∧ fromAddr [0] w.holding = 5 ∧
    w.holding.length ≤ maxUnauthClients ∧
    ∀ addr, fromAddr addr w.holding ≤ maxUnauthPerIp := by
  have served : step (start 1) (.round [] crowd) = some ((start 1).serve [] crowd) := rfl
  exact ⟨_, served, by decide +kernel, by decide +kernel,
    unauth_limited (.next .start trivial served)⟩

section
variable {listensockcount : Nat} {w : World} {ready : List Nat}

/-- The pipes that are closed at their other end are all reported. -/
def World.Reported (w : World) (ready : List Nat) : Prop :=
  ∀ c ∈ w.parent.clients, c ∉ w.holding → ready.contains c.pipe = true

theorem close_exact (h : Sound listensockcount w) (closed : w.Closed ready)
    (reported : w.Reported ready) : (closeReady w.parent ready).clients.Perm w.holding := by
  have distinct : w.holding.Nodup := by
    obtain ⟨l, same, sub⟩ := h.held
    exact same.nodup_iff.mp (sub.nodup h.distinct)
  rw [closeReady_clients, List.perm_ext_iff_of_nodup (h.distinct.filter _) distinct]
  intro c
  rw [List.mem_filter]
  constructor
  · rintro ⟨client, unreported⟩
    by_contra gone
    rw [reported c client gone] at unreported
    cases unreported
  · intro holds
    refine ⟨h.held.subset holds, ?_⟩
    rw [closed c holds]
    rfl

theorem attempt_exact {a : Attempt} (exact : w.parent.clients.Perm w.holding) :
    (w.attempt a).parent.clients.Perm (w.attempt a).holding := by
  rcases attempt_cases w a with same | lost | ⟨host, q, -, clients, -, -, started⟩
  · rwa [same]
  · rw [lost]
    exact exact
  · rw [started]
    exact clients.trans (exact.cons _)

theorem attempts_exact {attempts : List Attempt} (exact : w.parent.clients.Perm w.holding) :
    (attempts.foldl World.attempt w).parent.clients.Perm
      (attempts.foldl World.attempt w).holding := by
  induction attempts generalizing w with
  | nil => exact exact
  | cons a attempts ih => exact ih (attempt_exact exact)

/-- At any time in any run, once `select` has reported every closed pipe: behind any other
connections of the round, one for which nothing fails gets a child exactly if fewer than
thirty children, and fewer than five with its address, have a client that is not
authenticated. -/
theorem served_iff {as : List Action} (h : Reached step (start listensockcount) as w)
    (closed : w.Closed ready) (reported : w.Reported ready) (before : List Attempt)
    (host : Bytes) :
    (∃ c, (handle (w.serve ready before).parent ⟨some host, true, true⟩).2 = .child c) ↔
      (w.serve ready before).holding.length < maxUnauthClients ∧
        fromAddr host (w.serve ready before).holding < maxUnauthPerIp := by
  have exact : (w.serve ready before).parent.clients.Perm (w.serve ready before).holding :=
    attempts_exact (close_exact (run_sound h) closed reported)
  rw [handle_child_iff, exact.length_eq, fromAddr, fromAddr, exact.countP_eq]

end

/-- Six clients with one address, of which the sixth is closed; one of the others lets go. -/
def leaving : List Action :=
  [.round [] (List.replicate 6 ⟨some [1], true, true⟩), .letGo ⟨2, [1]⟩]

def afterLeaving : Option World := leaving.foldlM (guarded step fun _ _ => True) (start 1)

/-- Its pipe is reported, and behind a connection whose fork fails there is room for one more. -/
theorem served_iff_reported : ∃ w, Reached step (start 1) leaving w ∧
    w.parent.clients.length = 5 ∧ w.holding.length = 4 ∧
    ((∃ c, (handle (w.serve [2] [⟨some [1], true, false⟩]).parent ⟨some [1], true, true⟩).2 =
        .child c) ↔
      (w.serve [2] [⟨some [1], true, false⟩]).holding.length < maxUnauthClients ∧
        fromAddr [1] (w.serve [2] [⟨some [1], true, false⟩]).holding < maxUnauthPerIp) := by
  obtain ⟨w, eq⟩ : ∃ w, afterLeaving = some w :=
    Option.isSome_iff_exists.mp (by decide +kernel)
  have seen : afterLeaving.all (fun w =>
      w.Closed [2] ∧ (∀ c ∈ w.parent.clients, c ∉ w.holding → [2].contains c.pipe = true) ∧
        w.parent.clients.length = 5 ∧ w.holding.length = 4) = true := by
    decide +kernel
  rw [eq, Option.all_some, decide_eq_true_iff] at seen
  obtain ⟨closed, reported, clients, holding⟩ := seen
  exact ⟨w, run_of_foldlM eq, clients, holding,
    served_iff (run_of_foldlM eq) closed reported _ _⟩

end Ikofi.Listener
