import Ikofi.Auth.Complete
import Ikofi.Channel.Confined
import Ikofi.Transport.Exchange

/-!
# The whole session

The authentication and the channel requests on top of the transport. A run of the whole
session is a run of each of its parts, and the channels have to wait for the
authentication.
-/

namespace Ikofi.Transport

open Wire Runs

open Packet (sshMsgUserauthRequest)

open Kex (Tables)

def sshMsgChannelRequest : UInt8 := 98

/-- What is written for a message of the authentication. -/
def payloadOf : Auth.Message → UpperPayload
  | .failure methods partialSuccess =>
    ⟨51 :: (putString methods ++ [if partialSuccess then 1 else 0]), rfl⟩
  | .success => ⟨[52], rfl⟩
  | .banner text => ⟨53 :: (putString text ++ putString (lit "en")), rfl⟩
  | .pkOk sigalgo keyblob => ⟨60 :: (putString sigalgo ++ putString keyblob), rfl⟩

/-- The state of the protocols above. -/
structure Login where
  auth : Auth.Ses
  channels : Channel.Ses := {}

/-- What the other messages of the connection protocol do to the channels. -/
inductive Change
  | opened
  | removed (i : Nat)

def Change.event : Change → Channel.Event
  | .opened => .opened
  | .removed i => .removed i

def Change.make (s : Channel.Ses) : Change → Channel.Ses
  | .opened => { s with channels := Channel.newchannel {} s.channels }
  | .removed i => { s with channels := s.channels.set i none }

/-- What the outside answers: the content of `master_password`, the checks of a public
key, the operating system to a channel request, what becomes of any other message, and the
channels that `channelio` gives up. -/
structure Answer where
  file : Option Bytes := none
  keys : Auth.PubkeyChecks := {}
  os : Channel.Os := {}
  replies : List UpperPayload := []
  other : Except Halt (List Change) := .ok []
  closed : List Nat := []

namespace Login

def recvUserauth (c : Auth.Config) (a : Answer) (buf : Bytes) (s : Login) :
    Except Halt (Login × List UpperPayload) :=
  (Auth.recvMsgUserauthRequest c s.auth ⟨buf, a.file, a.keys⟩).map fun auth =>
    ({ s with auth }, (auth.sent.drop s.auth.sent.length).map payloadOf)

def recvChannelRequest (cc : Channel.Config) (a : Answer) (buf : Bytes) (s : Login) :
    Except Halt (Login × List UpperPayload) :=
  (Channel.recvMsgChannelRequest cc a.os s.channels buf).map fun channels =>
    ({ s with channels }, a.replies)

/-- The channels that there are. -/
def closing (s : Login) (closed : List Nat) : List Nat :=
  closed.filter fun i => (s.channels.channels[i]?).join.isSome

def upper (c : Auth.Config) (cc : Channel.Config) : Upper Login Answer where
  authdone s := s.auth.auth.authdone
  handle type buf a s :=
    if type = sshMsgUserauthRequest then s.recvUserauth c a buf
    else if type = sshMsgChannelRequest then s.recvChannelRequest cc a buf
    else a.other.map fun changes =>
      ({ s with channels := changes.foldl Change.make s.channels }, a.replies)
  channelio a s :=
    ({ s with channels := ((s.closing a.closed).map Change.removed).foldl Change.make s.channels },
      if s.closing a.closed = [] then [] else a.replies)

/-! ## The parts -/

section
variable {c : Auth.Config} {cc : Channel.Config} {start : Auth.Ses} {s s' : Login}

theorem changes_reached (channels : Channel.Ses) (changes : List Change) :
    Reached (Channel.step cc) channels (changes.map Change.event)
      (changes.foldl Change.make channels) := by
  induction changes generalizing channels with
  | nil => exact .start
  | cons change changes ih =>
    refine .cons trivial ?_ (ih _)
    cases change <;> rfl

theorem reached_trans {σ α : Type} {step : σ → α → Option σ} {s t v : σ} {as bs : List α}
    (h : Reached step s as t) (h' : Reached step t bs v) : Reached step s (as ++ bs) v := by
  induction h' with
  | start => rwa [List.append_nil]
  | next _ ok hs ih =>
    rw [← List.append_assoc]
    exact .next ih ok hs

theorem reached_nil {σ α : Type} {step : σ → α → Option σ} {s t : σ} {as : List α}
    (h : Reached step s as t) (none : as = []) : t = s := by
  cases h with
  | start => rfl
  | next _ _ _ => exact absurd none (by simp)

/-- Both parts have run on their own, and the channels have waited for the
authentication. -/
structure Parts (c : Auth.Config) (cc : Channel.Config) (start : Auth.Ses)
    (handled : List (Nat × UInt8)) (s : Login) : Prop where
  auth : ∃ rs, Reached (Auth.step c) start rs s.auth ∧
    rs.length = handled.countP fun x => x.2 == sshMsgUserauthRequest
  channels : ∃ es, Reached (Channel.step cc) {} es s.channels ∧
    (es ≠ [] → s.auth.auth.authdone = true)
  gate : Lib.Each (fun before x => maxUnauthPacketType < x.2 →
    ∃ y ∈ before, y.2 = sshMsgUserauthRequest ∧ 0 < y.1) handled
  asked : s.auth.auth.authdone = true → ∃ y ∈ handled, y.2 = sshMsgUserauthRequest ∧ 0 < y.1

variable {handled : List (Nat × UInt8)} {e : Nat} {type : UInt8} {buf : Bytes} {a : Answer}
  {replies : List UpperPayload}

/-- A message of the transport. -/
theorem Parts.note (h : Parts c cc start handled s) (below : type ≤ maxUnauthPacketType)
    (other : type ≠ sshMsgUserauthRequest) : Parts c cc start (handled ++ [(e, type)]) s := by
  obtain ⟨⟨rs, ran, count⟩, channels, gate, asked⟩ := h
  constructor
  · refine ⟨rs, ran, ?_⟩
    simpa [List.countP_append, other] using count
  · exact channels
  · apply gate.concat
    exact fun above => absurd below (UInt8.not_le.mpr above)
  · intro done
    obtain ⟨y, member, request⟩ := asked done
    exact ⟨y, List.mem_append_left _ member, request⟩

/-- A request that comes too late changes nothing. -/
theorem recvUserauth_done (done : s.auth.auth.authdone = true)
    (ok : s.recvUserauth c a buf = .ok (s', replies)) : s'.auth = s.auth := by
  rw [recvUserauth, Auth.recvMsgUserauthRequest, if_pos done] at ok
  cases ok
  rfl

theorem Parts.userauth (h : Parts c cc start handled s) (later : 0 < e)
    (ok : s.recvUserauth c a buf = .ok (s', replies)) :
    Parts c cc start (handled ++ [(e, sshMsgUserauthRequest)]) s' := by
  obtain ⟨⟨rs, ran, count⟩, ⟨es, events, waited⟩, gate, asked⟩ := h
  have kept (done : s.auth.auth.authdone = true) : s'.auth = s.auth := recvUserauth_done done ok
  unfold recvUserauth at ok
  cases received : Auth.recvMsgUserauthRequest c s.auth ⟨buf, a.file, a.keys⟩ with
  | error halt =>
    rw [received] at ok
    cases ok
  | ok auth =>
    rw [received] at ok
    cases ok
    have stepped : Auth.step c s.auth ⟨buf, a.file, a.keys⟩ = some auth := by
      rw [Auth.step, received]
      rfl
    constructor
    · refine ⟨rs ++ [_], .next ran trivial stepped, ?_⟩
      rw [List.length_append, List.countP_append, count]
      rfl
    · refine ⟨es, events, fun some => ?_⟩
      have done := waited some
      rw [kept done]
      exact done
    · apply gate.concat
      have below : ¬ maxUnauthPacketType < sshMsgUserauthRequest := by decide
      exact fun above => absurd above below
    · intro
      exact ⟨(e, sshMsgUserauthRequest), List.mem_append_right _ (List.mem_singleton.mpr rfl), rfl,
        later⟩

/-- A message of the connection protocol. -/
theorem Parts.connection (h : Parts c cc start handled s) (done : s.auth.auth.authdone = true)
    (other : type ≠ sshMsgUserauthRequest) (auth : s'.auth = s.auth)
    (channels : ∃ es, Reached (Channel.step cc) s.channels es s'.channels) :
    Parts c cc start (handled ++ [(e, type)]) s' := by
  obtain ⟨⟨rs, ran, count⟩, ⟨es, events, -⟩, gate, asked⟩ := h
  obtain ⟨es', events'⟩ := channels
  rw [← auth] at done asked ran
  constructor
  · refine ⟨rs, ran, ?_⟩
    simpa [List.countP_append, other] using count
  · exact ⟨es ++ es', reached_trans events events', fun _ => done⟩
  · exact gate.concat fun _ => asked done
  · intro
    obtain ⟨y, member, request⟩ := asked done
    exact ⟨y, List.mem_append_left _ member, request⟩

theorem Parts.handle (h : Parts c cc start handled s) (later : 0 < e)
    (known : upperPackettypes.contains type = true)
    (allowed : (upper c cc).authdone s = true ∨ type ≤ maxUnauthPacketType)
    (ok : (upper c cc).handle type buf a s = .ok (s', replies)) :
    Parts c cc start (handled ++ [(e, type)]) s' := by
  change (if type = sshMsgUserauthRequest then s.recvUserauth c a buf
    else if type = sshMsgChannelRequest then s.recvChannelRequest cc a buf
    else a.other.map fun changes =>
      (({ s with channels := changes.foldl Change.make s.channels } : Login), a.replies)) = _ at ok
  by_cases request : type = sshMsgUserauthRequest
  · subst request
    rw [if_pos rfl] at ok
    exact h.userauth later ok
  · rw [if_neg request] at ok
    have done : s.auth.auth.authdone = true := by
      apply allowed.resolve_right
      have above : (upperPackettypes.all fun t =>
          t == sshMsgUserauthRequest || !decide (t ≤ maxUnauthPacketType)) = true := by decide
      have this := List.all_eq_true.mp above type (List.contains_iff_mem.mp known)
      rw [beq_eq_false_iff_ne.mpr request, Bool.false_or, Bool.not_eq_true'] at this
      exact of_decide_eq_false this
    split at ok
    · unfold recvChannelRequest at ok
      cases received : Channel.recvMsgChannelRequest cc a.os s.channels buf with
      | error halt =>
        rw [received] at ok
        cases ok
      | ok channels =>
        rw [received] at ok
        cases ok
        have stepped : Channel.step cc s.channels (.request buf a.os) = some channels := by
          rw [Channel.step, received]
          rfl
        exact h.connection done request rfl ⟨[_], .next .start trivial stepped⟩
    · cases answer : a.other with
      | error halt =>
        rw [answer] at ok
        cases ok
      | ok changes =>
        rw [answer] at ok
        cases ok
        exact h.connection done request rfl ⟨_, changes_reached s.channels changes⟩

/-- Channels are given up only where there are any. -/
theorem Parts.io (h : Parts c cc start handled s) :
    Parts c cc start handled ((upper c cc).channelio a s).1 := by
  obtain ⟨auth, ⟨es, events, waited⟩, gate, asked⟩ := h
  refine ⟨auth, ?_, gate, asked⟩
  refine ⟨es ++ ((s.closing a.closed).map Change.removed).map Change.event,
    reached_trans events (changes_reached _ _), fun some => ?_⟩
  apply waited
  rintro rfl
  have none : s.closing a.closed = [] := by
    rw [closing, reached_nil events rfl]
    simp
  rw [none] at some
  exact some rfl

end

end Login

/-! ## Runs -/

section
variable {c : Auth.Config} {cc : Channel.Config} {start : Auth.Ses} {s s' : Ses Login}
  {ph ph' : Phase}

open Login (Parts)

theorem Process.parts {type : UInt8} {buf : Bytes} (h : Parts c cc start s.handled s.upper)
    (way : Process (Login.upper c cc) s type buf ph ph' s') :
    Parts c cc start s'.handled s'.upper := by
  cases way with
  | skip _ | unimplemented _ _ | ignored _ _ => exact h
  | kexinit required begin _ _ =>
    subst required
    have noted : Parts c cc start (s.handled ++ [(s.recvEpoch, Packet.sshMsgKexinit)]) s.upper :=
      h.note (by decide) (by decide)
    obtain ⟨-, rfl⟩ | ⟨-, content, rfl⟩ := begin <;> exact noted
  | kexdhInit required _ _ _ begin _ _ _ =>
    subst required begin
    exact h.note (by decide) (by decide)
  | newkeys required _ =>
    subst required
    exact h.note (by decide) (by decide)
  | service required _ _ _ =>
    subst required
    exact h.note (by decide) (by decide)
  | upper known _ later allowed handled => exact h.handle later known allowed handled

theorem Small.parts (h : Parts c cc start s.handled s.upper)
    (small : Small (Login.upper c cc) s ph ph' s') : Parts c cc start s'.handled s'.upper := by
  cases small with
  | kexinit _ | ask _ _ | flush => exact h
  | packet _ type buf way => exact Process.parts (s := s.receive (type :: buf)) h way
  | io _ i => exact h.io

end

end Ikofi.Transport
