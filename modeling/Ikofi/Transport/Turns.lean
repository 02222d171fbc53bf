import Ikofi.Lib.Runs
import Ikofi.Transport.Phases

/-!
# Turns of the loop

A turn is a few small steps. An invariant of the small steps holds in every state that
the loop reaches.
-/

namespace Ikofi.Transport

open Wire Runs

open Packet (uint packetIsOkayKex sshMsgKexinit sshMsgNewkeys sshMsgServiceRequest)

open Kex (Tables KexSes Newkeys)

section
variable {υ ι : Type}

/-- What waits is sent, where it may be. -/
def Ses.flushed (s : Ses υ) : Ses υ :=
  { s with out := if s.out.dataallowed then s.out.drain else s.out }

/-- The small steps: a KEXINIT of ours, packets of the protocols above, a packet
received, the sending of what waits, and the end of a turn. -/
inductive Small (u : Upper υ ι) (s : Ses υ) : Phase → Phase → Ses υ → Prop
  | kexinit (content : Bytes) : Small u s .idle .asked (s.kexinited content)
  | ask {ph : Phase} (drained : s.out.Drained) (ps : List UpperPayload) :
      Small u s ph ph (s.answered s.upper ps)
  | packet {ph ph' : Phase} {s' : Ses υ} (drained : s.out.Drained) (type : UInt8) (buf : Bytes)
      (way : Process u (s.receive (type :: buf)) type buf ph ph' s') : Small u s ph ph' s'
  | flush {ph : Phase} : Small u s ph ph s.flushed
  | io {ph : Phase} (drained : s.out.Drained) (i : ι) :
      Small u s ph ph (s.answered (u.channelio i s.upper).1 (u.channelio i s.upper).2)

/-- What holds between small steps. -/
structure Steady (s : Ses υ) (ph : Phase) : Prop where
  at_ : At s ph
  kept : s.out.Kept s.asked

variable {u : Upper υ ι} {s s' : Ses υ} {ph ph' : Phase}

theorem At.receive (h : At s ph) (payload : Bytes) : At (s.receive payload) ph :=
  ⟨h.control, h.epoch, h.later, h.ignore⟩

theorem At.flushed (h : At s ph) : At s.flushed ph := by
  have same : s.flushed.out.dataallowed = s.out.dataallowed ∧
      s.flushed.out.epoch = s.out.epoch := by
    unfold Ses.flushed
    dsimp only
    split
    · exact s.out.drain_same
    · exact ⟨rfl, rfl⟩
  constructor
  · refine Eq.trans ?_ h.control
    simp only [Ses.control, same.1]
    rfl
  · exact same.2.trans h.epoch
  · exact h.later
  · exact h.ignore

theorem Small.at (h : At s ph) (small : Small u s ph ph' s') : At s' ph' := by
  cases small with
  | kexinit content => exact h.kexinited content
  | ask _ ps => exact h.answered _ ps
  | packet _ type buf way => exact (h.receive _).processed way
  | flush => exact h.flushed
  | io _ i => exact h.answered _ _

/-- A small step moves the sending half, and what the protocols above say is recorded. -/
theorem Small.moves (h : At s ph) (small : Small u s ph ph' s') :
    ∃ said, s'.asked = s.asked ++ said ∧ Moves s'.kex.strictKex s.out said s'.out := by
  have speaks (drained : s.out.Drained) (ps : List UpperPayload) :
      Moves s.kex.strictKex s.out (ps.map (·.1)) ((ps.map (·.1)).foldl Outgoing.speak s.out) := by
    refine speaks_moves (fun p hp => ?_) drained
    obtain ⟨q, -, rfl⟩ := List.mem_map.mp hp
    exact q.2
  cases small with
  | kexinit content =>
    have idle := (h.dataallowed (Or.inl rfl)).mpr rfl
    exact ⟨[], (List.append_nil _).symm, .single (.kexinit content idle)⟩
  | ask drained ps => exact ⟨_, rfl, speaks drained ps⟩
  | io drained i => exact ⟨_, rfl, speaks drained _⟩
  | packet drained type buf way =>
    have moved := Process.moves (h.receive _) drained way
    exact moved
  | flush =>
    refine ⟨[], (List.append_nil _).symm, ?_⟩
    unfold Ses.flushed
    by_cases free : s.out.dataallowed = true
    · dsimp only
      rw [if_pos free]
      exact .single (.drain free)
    · dsimp only
      rw [if_neg free]
      exact .refl _

theorem Steady.small (h : Steady s ph) (small : Small u s ph ph' s') : Steady s' ph' := by
  obtain ⟨said, asked, moves⟩ := small.moves h.at_
  refine ⟨small.at h.at_, ?_⟩
  rw [asked]
  exact moves.kept h.kept

/-- Strict key exchange is agreed on before any keys are in use, if at all. -/
theorem Small.strict (h : At s ph) (small : Small u s ph ph' s') :
    s'.kex.strictKex = s.kex.strictKex ∨ s.recvEpoch = 0 ∧ s.out.epoch = 0 := by
  cases small with
  | kexinit _ => exact Or.inl rfl
  | ask _ _ => exact Or.inl rfl
  | flush => exact Or.inl rfl
  | io _ _ => exact Or.inl rfl
  | packet _ type buf way =>
    cases way with
    | skip _ => exact Or.inl rfl
    | unimplemented _ _ => exact Or.inl rfl
    | ignored _ _ => exact Or.inl rfl
    | @kexinit _ t kex _ _ start read _ =>
      obtain ⟨-, -, later, -⟩ := readKexAlgos_flags read
      have same : t.kex.strictKex = s.kex.strictKex ∧ t.kex.donefirstkex = s.kex.donefirstkex := by
        obtain ⟨-, rfl⟩ | ⟨-, content, rfl⟩ := start <;> exact ⟨rfl, rfl⟩
      cases done : s.kex.donefirstkex with
      | true => exact Or.inl ((later (same.2.trans done)).trans same.1)
      | false =>
        apply Or.inr
        have control := (congrArg Control.donefirstkex h.control).symm.trans done
        obtain ⟨rfl, -⟩ | ⟨rfl, -⟩ := start
        · have first : s.recvEpoch = 0 := by simpa [Phase.control] using control
          exact ⟨first, h.epoch.trans first⟩
        · have first : s.recvEpoch = 0 := by simpa [Phase.control] using control
          exact absurd (h.later rfl) (by omega)
    | kexdhInit _ _ _ _ start _ _ _ =>
      subst start
      exact Or.inl rfl
    | newkeys _ _ => exact Or.inl rfl
    | service _ _ _ _ => exact Or.inl rfl
    | upper _ _ _ _ _ => exact Or.inl rfl

/-- The packets sent stay stamped. -/
theorem Small.stamped (h : Steady s ph) (stamped : s.out.Stamped s.kex.strictKex)
    (small : Small u s ph ph' s') : s'.out.Stamped s'.kex.strictKex := by
  obtain ⟨said, -, moves⟩ := small.moves h.at_
  apply moves.stamped h.kept
  obtain same | ⟨-, first⟩ := small.strict h.at_
  · exact same ▸ stamped
  · exact stamped.first first

/-- Small steps, one after the other. -/
inductive Smalls (u : Upper υ ι) (s : Ses υ) (ph : Phase) : Phase → Ses υ → Prop
  | refl : Smalls u s ph ph s
  | next {ph' ph'' : Phase} {s' s'' : Ses υ} :
      Smalls u s ph ph' s' → Small u s' ph' ph'' s'' → Smalls u s ph ph'' s''

/-! ## A turn -/

theorem flush_eq (kept : s.out.Kept s.asked) : s.flush = .ok s.flushed := by
  unfold Ses.flush Outgoing.maybeFlushReplyQueue Ses.flushed
  by_cases free : s.out.dataallowed = true
  · have sends (ps : List Bytes) (o : Outgoing) (allowed : o.dataallowed = true)
        (upper : ∀ p ∈ ps, isUpper p = true) :
        ps.foldlM Outgoing.encryptPacket o = .ok (ps.foldl Outgoing.send o) := by
      induction ps generalizing o with
      | nil => rfl
      | cons p ps ih =>
        rw [List.forall_mem_cons] at upper
        have sent : o.encryptPacket p = .ok (o.send p) := by
          rw [encryptPacket_upper upper.1, Outgoing.speak, if_pos allowed]
        rw [List.foldlM_cons, sent, List.foldl_cons]
        exact ih _ allowed upper.2
    rw [if_neg (by simp [free]), if_pos free, sends _ _ free kept.queued]
    rfl
  · rw [if_pos (by simp [free]), if_neg free]
    rfl

theorem flushed_drained : s.flushed.out.Drained := by
  unfold Ses.flushed Outgoing.Drained
  dsimp only
  split
  · exact fun _ => rfl
  · rename_i held
    exact fun free => absurd free held

theorem answered_drained (h : s.out.Drained) (upper : υ) (ps : List UpperPayload) :
    (s.answered upper ps).out.Drained := by
  intro free
  obtain ⟨allowed, -, queue⟩ := speaks_same (ps.map (·.1)) s.out
  have free' : s.out.dataallowed = true := allowed.symm.trans free
  exact (queue free').trans (h free')

/-- Whether or not a new exchange is due. -/
theorem startKex_small (h : At s ph) (drained : s.out.Drained) {due : Bool} {cookie : Bytes}
    (ok : startKex due cookie s = .ok s') :
    s'.out.Drained ∧ (s' = s ∨ Small u s ph .asked s' ∧ ph = .idle) := by
  unfold startKex at ok
  split at ok
  · rename_i start
    rw [Bool.and_eq_true, Bool.not_eq_true'] at start
    have idle : ph = .idle := by
      have sent := (congrArg Control.sentkexinit h.control).symm.trans start.1
      cases ph with
      | idle => rfl
      | asked | agreed | switched => cases sent
    subst idle
    obtain ⟨content, -, eq⟩ := sendMsgKexinit_eq ((h.dataallowed (Or.inl rfl)).mpr rfl) cookie
    rw [eq] at ok
    cases ok
    exact ⟨nofun, Or.inr ⟨.kexinit content, rfl⟩⟩
  · cases ok
    exact ⟨drained, Or.inl rfl⟩

/-- A turn is made of small steps, and at its end nothing waits that could be sent. -/
theorem sessionLoop_smalls (h : Steady s ph) (drained : s.out.Drained) {t : Turn ι}
    (ok : sessionLoop u s t = .ok s') :
    ∃ ph', Smalls u s ph ph' s' ∧ Steady s' ph' ∧ s'.out.Drained := by
  unfold sessionLoop at ok
  obtain ⟨s2, timeouts, ok⟩ := bind_ok.mp ok
  obtain ⟨s3, packet, ok⟩ := bind_ok.mp ok
  obtain ⟨s4, flushed, ok⟩ := bind_ok.mp ok
  unfold checktimeouts at timeouts
  obtain ⟨s1, start, keepalive⟩ := bind_ok.mp timeouts
  -- our KEXINIT, if it is due
  obtain ⟨ph1, smalls1, steady1, drained1⟩ :
      ∃ ph1, Smalls u s ph ph1 s1 ∧ Steady s1 ph1 ∧ s1.out.Drained := by
    obtain ⟨drained1, rfl | ⟨small, rfl⟩⟩ := startKex_small (u := u) h.at_ drained start
    · exact ⟨ph, .refl, h, drained1⟩
    · exact ⟨.asked, .next .refl small, h.small small, drained1⟩
  rw [ask_eq] at keepalive
  cases keepalive
  have ask1 : Small u s1 ph1 ph1 (s1.answered s1.upper t.keepalive) := .ask drained1 _
  have drained2 := answered_drained drained1 s1.upper t.keepalive
  -- the packet, if one was read
  obtain ⟨ph3, smalls3, steady3⟩ : ∃ ph3, Smalls u s ph ph3 s3 ∧ Steady s3 ph3 := by
    unfold incoming at packet
    split at packet
    · cases packet
      exact ⟨ph1, smalls1.next ask1, steady1.small ask1⟩
    · obtain ⟨type, buf, ph3, rfl, way⟩ :=
        processPacket_cases ((steady1.small ask1).at_.receive _) packet
      have small := Small.packet drained2 type buf way
      exact ⟨ph3, (smalls1.next ask1).next small, (steady1.small ask1).small small⟩
  rw [flush_eq steady3.kept] at flushed
  cases flushed
  rw [channelio, ask_eq] at ok
  cases ok
  have flush : Small u s3 ph3 ph3 s3.flushed := .flush
  have io : Small u s3.flushed ph3 ph3 _ := .io flushed_drained t.env.upper
  exact ⟨ph3, (smalls3.next flush).next io, (steady3.small flush).small io,
    answered_drained flushed_drained _ _⟩

/-! ## Runs -/

/-- A session at the start of its loop. -/
theorem svrSession_steady {tables : Tables} {cookie : Bytes} {upper : υ}
    (h : svrSession tables cookie upper = .ok s) :
    Steady s .asked ∧ s.out.Drained ∧
      ∃ content, s = Ses.kexinited { tables, upper } content := by
  unfold svrSession at h
  obtain ⟨content, -, eq⟩ := sendMsgKexinit_eq (s := ({ tables, upper } : Ses υ)) rfl cookie
  rw [eq] at h
  cases h
  refine ⟨⟨⟨rfl, rfl, nofun, nofun⟩, ⟨rfl, ?_⟩⟩, nofun, content, rfl⟩
  exact fun p hp => by cases hp

theorem svrSession_stamped {tables : Tables} {cookie : Bytes} {upper : υ}
    (h : svrSession tables cookie upper = .ok s) : s.out.Stamped s.kex.strictKex := by
  obtain ⟨-, -, content, rfl⟩ := svrSession_steady h
  have fresh : Outgoing.Stamped false {} := ⟨rfl, Lib.each_nil, Lib.Stamps.nil _ _ _ _⟩
  exact fresh.move ⟨rfl, nofun⟩ (.kexinit content rfl)

/-- What holds at the start of the loop and is kept by the small steps holds in every
state reached. -/
theorem reached_invariant {I : Phase → Ses υ → Prop} {tables : Tables} {cookie : Bytes} {upper : υ}
    {s₀ : Ses υ} (started : svrSession tables cookie upper = .ok s₀) (start : I .asked s₀)
    (keep : ∀ s ph s' ph', Steady s ph → I ph s → Small u s ph ph' s' → I ph' s')
    {ts : List (Turn ι)} (run : Reached (step u) s₀ ts s) :
    ∃ ph, Steady s ph ∧ s.out.Drained ∧ I ph s := by
  obtain ⟨steady, drained, -⟩ := svrSession_steady started
  apply run.invariant (I := fun s => ∃ ph, Steady s ph ∧ s.out.Drained ∧ I ph s)
  · exact ⟨.asked, steady, drained, start⟩
  · rintro s t s' ⟨ph, steady, drained, holds⟩ - stepped
    obtain ⟨ph', smalls, steady', drained'⟩ :=
      sessionLoop_smalls steady drained (ok_of_toOption stepped)
    refine ⟨ph', steady', drained', ?_⟩
    have both : Steady s' ph' ∧ I ph' s' := by
      clear steady' drained' stepped
      induction smalls with
      | refl => exact ⟨steady, holds⟩
      | next _ small ih => exact ⟨ih.1.small small, keep _ _ _ _ ih.1 ih.2 small⟩
    exact both.2

/-! ## A run -/

/-- What holds where a run ends can be computed. -/
theorem exists_reached (u : Upper υ ι) (tables : Tables) (cookie : Bytes) (upper : υ)
    (ts : List (Turn ι)) (p : Ses υ → Bool)
    (h : (svrSession tables cookie upper).toOption.any
      (fun s₀ => (ts.foldlM (guarded (step u) fun _ _ => True) s₀).any p) = true) :
    ∃ s₀ s, svrSession tables cookie upper = .ok s₀ ∧ Reached (step u) s₀ ts s ∧ p s = true := by
  obtain ⟨s₀, started, h⟩ := (Option.any_eq_true _ _).mp h
  obtain ⟨s, run, holds⟩ := (Option.any_eq_true _ _).mp h
  exact ⟨s₀, s, ok_of_toOption started, run_of_foldlM run, holds⟩

/-- Protocols above that never answer. -/
def Upper.silent : Upper Unit Unit where
  authdone _ := false
  handle _ _ _ _ := .ok ((), [])
  channelio _ _ := ((), [])

/-- A first exchange with a client of ours, and the request of a service behind it. -/
def clientTurns : List (Turn Unit) :=
  let env : Env Unit := ⟨List.replicate 16 0, .ok [], ()⟩
  [{ packet := some (Kex.sendMsgKexinit (Kex.clientTables false fun _ => true)
      (List.replicate 16 7) false), env },
   { packet := some (sshMsgKexdhInit :: putString []), env },
   { packet := some [sshMsgNewkeys], env },
   { packet := some (sshMsgServiceRequest :: putString (lit "ssh-userauth")), env }]

end

end Ikofi.Transport
