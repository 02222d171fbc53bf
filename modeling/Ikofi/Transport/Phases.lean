import Ikofi.Kex.Chosen
import Ikofi.Transport.Model

/-!
# The phases of a key exchange

The flags of a session are those of one of four phases. What a packet can do in each
phase is said here once; everything that holds in every run is taken from that.
-/

namespace Ikofi.Transport

open Wire

open Packet (uint packetIsOkayKex sshMsgKexinit sshMsgNewkeys sshMsgServiceRequest
  sshMsgServiceAccept sshMsgUserauthRequest)

open Kex (Tables KexSes Newkeys readKexAlgos)

/-- No exchange; our KEXINIT is sent; the client's has come too; the new keys are used for
sending, and not yet for receiving. -/
inductive Phase
  | idle | asked | agreed | switched
  deriving DecidableEq, Repr

/-- The flags of a session. -/
structure Control where
  sentkexinit : Bool
  recvkexinit : Bool
  sentnewkeys : Bool
  recvnewkeys : Bool
  newRecvValid : Bool
  newTransValid : Bool
  dataallowed : Bool
  donefirstkex : Bool
  recvfirstnewkeys : Bool
  newkeys : Bool
  requirenext : UInt8
  deriving DecidableEq, Repr

def Ses.control {υ : Type} (s : Ses υ) : Control where
  sentkexinit := s.sentkexinit
  recvkexinit := s.recvkexinit
  sentnewkeys := s.sentnewkeys
  recvnewkeys := s.recvnewkeys
  newRecvValid := s.newRecvValid
  newTransValid := s.newTransValid
  dataallowed := s.out.dataallowed
  donefirstkex := s.kex.donefirstkex
  recvfirstnewkeys := s.recvfirstnewkeys
  newkeys := s.kex.newkeys.isSome
  requirenext := s.requirenext

/-- The flags of a phase, in the first exchange or later. -/
def Phase.control (first : Bool) : Phase → Control
  | .idle => ⟨false, false, false, false, false, false, true, !first, !first, false, 0⟩
  | .asked => ⟨true, false, false, false, false, false, false, !first, !first, false,
      if first then sshMsgKexinit else 0⟩
  | .agreed => ⟨true, true, false, false, false, false, false, !first, !first, true,
      sshMsgKexdhInit⟩
  | .switched => ⟨true, true, true, false, true, false, true, true, !first, true, sshMsgNewkeys⟩

section
variable {υ ι : Type}

structure At (s : Ses υ) (ph : Phase) : Prop where
  control : s.control = ph.control (s.recvEpoch == 0)
  epoch : s.out.epoch = if ph = .switched then s.recvEpoch + 1 else s.recvEpoch
  later : ph = .idle → 0 < s.recvEpoch
  ignore : s.kex.ignorenext = true → ph = .agreed

/-! ## The operations -/

/-- What `send_msg_kexinit` makes of a session. -/
def Ses.kexinited (s : Ses υ) (content : Bytes) : Ses υ :=
  { s with
    out := s.out.kexinited content
    sentkexinit := true
    kex := { s.kex with newkeys := none }
    newRecvValid := false
    newTransValid := false }

theorem sendMsgKexinit_eq {s : Ses υ} (idle : s.out.dataallowed = true) (cookie : Bytes) :
    ∃ content, Kex.sendMsgKexinit s.tables cookie false = sshMsgKexinit :: content ∧
      sendMsgKexinit cookie s = .ok (s.kexinited content) := by
  refine ⟨_, rfl, ?_⟩
  have sent (content : Bytes) : s.out.encryptPacket (sshMsgKexinit :: content) =
      .ok (s.out.send (sshMsgKexinit :: content)) := by
    rw [Outgoing.encryptPacket_cons, idle]
    rfl
  unfold sendMsgKexinit Ses.put Kex.sendMsgKexinit
  rw [sent]
  rfl

theorem encryptPacket_control {o : Outgoing} {type : UInt8} (okay : packetIsOkayKex type = true)
    (content : Bytes) : o.encryptPacket (type :: content) = .ok (o.send (type :: content)) := by
  rw [Outgoing.encryptPacket_cons, okay, Bool.not_true, Bool.and_false]
  rfl

theorem put_control {s : Ses υ} {type : UInt8} (okay : packetIsOkayKex type = true)
    (content : Bytes) :
    s.put (type :: content) = .ok { s with out := s.out.send (type :: content) } := by
  rw [Ses.put, encryptPacket_control okay]
  rfl

theorem encryptPacket_upper {o : Outgoing} {p : Bytes} (h : isUpper p = true) :
    o.encryptPacket p = .ok (o.speak p) := by
  cases p with
  | nil => cases h
  | cons type content =>
    have held : packetIsOkayKex type = false := by
      simp only [isUpper, Bool.and_eq_true, Bool.not_eq_true'] at h
      exact h.1
    rw [Outgoing.encryptPacket_cons, held, Bool.not_false, Bool.and_true, Outgoing.speak]
    cases o.dataallowed <;> rfl

theorem foldlM_upper (o : Outgoing) {ps : List Bytes} (h : ∀ p ∈ ps, isUpper p = true) :
    ps.foldlM Outgoing.encryptPacket o = .ok (ps.foldl Outgoing.speak o) := by
  induction ps generalizing o with
  | nil => rfl
  | cons p ps ih =>
    rw [List.forall_mem_cons] at h
    rw [List.foldlM_cons, encryptPacket_upper h.1, List.foldl_cons]
    exact ih _ h.2

/-- What the protocols above send leaves the rest of the session alone. -/
theorem ask_eq (s : Ses υ) (ps : List UpperPayload) :
    s.ask ps = .ok { s with
      out := (ps.map (·.1)).foldl Outgoing.speak s.out
      asked := s.asked ++ ps.map (·.1) } := by
  have upper : ∀ p ∈ ps.map (·.1), isUpper p = true := by
    intro p hp
    obtain ⟨q, -, rfl⟩ := List.mem_map.mp hp
    exact q.2
  rw [Ses.ask, foldlM_upper _ upper]
  rfl

theorem speak_dataallowed (o : Outgoing) (p : Bytes) : (o.speak p).dataallowed = o.dataallowed := by
  unfold Outgoing.speak
  split <;> rfl

theorem speak_epoch (o : Outgoing) (p : Bytes) : (o.speak p).epoch = o.epoch := by
  unfold Outgoing.speak
  split <;> rfl

theorem speaks_same (ps : List Bytes) (o : Outgoing) :
    (ps.foldl Outgoing.speak o).dataallowed = o.dataallowed ∧
    (ps.foldl Outgoing.speak o).epoch = o.epoch ∧
    (o.dataallowed = true → (ps.foldl Outgoing.speak o).replyQueue = o.replyQueue) := by
  induction ps generalizing o with
  | nil => exact ⟨rfl, rfl, fun _ => rfl⟩
  | cons p ps ih =>
    obtain ⟨allowed, epoch, queue⟩ := ih (o.speak p)
    rw [speak_dataallowed] at allowed queue
    rw [speak_epoch] at epoch
    refine ⟨allowed, epoch, fun free => (queue free).trans ?_⟩
    rw [Outgoing.speak, if_pos free]
    rfl

theorem speaks_moves {strict : Bool} {ps : List Bytes} {o : Outgoing}
    (h : ∀ p ∈ ps, isUpper p = true) (drained : o.dataallowed = true → o.replyQueue = []) :
    Moves strict o ps (ps.foldl Outgoing.speak o) := by
  induction ps generalizing o with
  | nil => exact .refl o
  | cons p ps ih =>
    rw [List.forall_mem_cons] at h
    have first : Move strict o [p] (o.speak p) := .speak h.1 drained
    have rest : Moves strict (o.speak p) ps (ps.foldl Outgoing.speak (o.speak p)) := by
      apply ih h.2
      intro free
      rw [speak_dataallowed] at free
      rw [Outgoing.speak, if_pos free]
      exact drained free
    exact (Moves.single first).trans rest

/-! ## What a packet does -/

/-- The client's algorithms are read. -/
def Ses.agreedOn (s : Ses υ) (kex : KexSes) : Ses υ :=
  { s with
    kex
    newRecvValid := false
    newTransValid := false
    requirenext := sshMsgKexdhInit
    recvkexinit := true }

/-- The reply to the client's value is sent, and NEWKEYS behind it. -/
def Ses.switchedTo (s : Ses υ) (k : Newkeys) (content : Bytes) : Ses υ :=
  { s with
    out := (s.out.send (sshMsgKexdhReply :: content)).newkeys s.kex.strictKex
    sentnewkeys := true
    donesecondkex := s.donesecondkex || s.kex.donefirstkex
    kex := { s.kex with donefirstkex := true }
    newRecvValid := true
    newTransValid := false
    transKeys := some k.trans
    requirenext := sshMsgNewkeys }

/-- The client's NEWKEYS ends the exchange. -/
def Ses.renewed (s : Ses υ) (k : Newkeys) : Ses υ :=
  { s with
    recvKeys := some k.recv
    recvEpoch := s.recvEpoch + 1
    sentkexinit := false
    recvkexinit := false
    sentnewkeys := false
    recvnewkeys := false
    newRecvValid := false
    newTransValid := false
    kex := { s.kex with
      newkeys := none, themFirstfollows := false, ourFirstFollowsMatches := false }
    recvseq := if s.kex.strictKex then 0 else s.recvseq
    recvfirstnewkeys := true
    requirenext := 0 }

/-- The session behind the answers to a message of the protocols above. -/
def Ses.answered (s : Ses υ) (upper : υ) (replies : List UpperPayload) : Ses υ :=
  { s with
    upper
    out := (replies.map (·.1)).foldl Outgoing.speak s.out
    asked := s.asked ++ replies.map (·.1) }

/-- What a packet of a type can do, from one phase to the next. -/
inductive Process (u : Upper υ ι) (s : Ses υ) (type : UInt8) (buf : Bytes) :
    Phase → Phase → Ses υ → Prop
  | skip {ph : Phase} (free : s.firstStrictKex = false) : Process u s type buf ph ph s
  | unimplemented {ph : Phase} (free : s.firstStrictKex = false) (content : Bytes) :
      Process u s type buf ph ph { s with out := s.out.send (sshMsgUnimplemented :: content) }
  | ignored (required : type = sshMsgKexdhInit) (ignorenext : s.kex.ignorenext = true) :
      Process u s type buf .agreed .agreed { s with kex := { s.kex with ignorenext := false } }
  | kexinit {ph : Phase} {t : Ses υ} {kex : KexSes} {rest : Bytes}
      (required : type = sshMsgKexinit)
      (start : ph = .asked ∧ t = { s.note type with requirenext := 0 } ∨
        ph = .idle ∧ ∃ content, t = (s.note type).kexinited content)
      (read : readKexAlgos true t.tables false t.kex buf = .ok (kex, rest))
      (first : kex.strictKex = true → kex.donefirstkex = false → s.recvseq = 1) :
      Process u s type buf ph .agreed (t.agreedOn kex)
  | kexdhInit {k : Newkeys} {t : Ses υ} (required : type = sshMsgKexdhInit)
      (ready : s.kex.ignorenext = false) (keys : s.kex.newkeys = some k) (content : Bytes)
      (start : t = (s.note type).switchedTo k content) (tables : Tables) (out : Outgoing)
      (ends : out = t.out ∨
        t.donesecondkex = false ∧ ∃ ext, out = t.out.send (sshMsgExtInfo :: ext)) :
      Process u s type buf .agreed .switched { t with tables, out }
  | newkeys {k : Newkeys} (required : type = sshMsgNewkeys) (keys : s.kex.newkeys = some k) :
      Process u s type buf .switched .idle ((s.note type).renewed k)
  | service {ph : Phase} (required : type = sshMsgServiceRequest)
      (between : ph = .idle ∨ ph = .asked) (later : 0 < s.recvEpoch) (replies : List UpperPayload) :
      Process u s type buf ph ph ((s.note type).answered s.upper replies)
  | upper {ph : Phase} {upper : υ} {env : ι} {replies : List UpperPayload}
      (known : upperPackettypes.contains type = true) (between : ph = .idle ∨ ph = .asked)
      (later : 0 < s.recvEpoch)
      (allowed : u.authdone s.upper = true ∨ type ≤ maxUnauthPacketType)
      (handled : u.handle type buf env s.upper = .ok (upper, replies)) :
      Process u s type buf ph ph ((s.note type).answered upper replies)

/-! ### Every way through `process_packet` -/

variable {u : Upper υ ι} {env : Env ι} {s s' : Ses υ} {ph : Phase} {type : UInt8} {buf : Bytes}

/-- What may come next. -/
theorem At.required (h : At s ph) :
    s.requirenext = 0 ∧ (ph = .idle ∨ ph = .asked) ∧ 0 < s.recvEpoch ∨
    s.requirenext = sshMsgKexinit ∧ ph = .asked ∨
    s.requirenext = sshMsgKexdhInit ∧ ph = .agreed ∨
    s.requirenext = sshMsgNewkeys ∧ ph = .switched := by
  have required : s.requirenext = (ph.control (s.recvEpoch == 0)).requirenext :=
    congrArg Control.requirenext h.control
  cases ph with
  | idle => exact Or.inl ⟨required, Or.inl rfl, h.later rfl⟩
  | asked =>
    by_cases first : s.recvEpoch = 0
    · apply Or.inr
      apply Or.inl
      simpa [Phase.control, first] using required
    · apply Or.inl
      refine ⟨?_, Or.inr rfl, Nat.pos_of_ne_zero first⟩
      simpa [Phase.control, first] using required
  | agreed => exact Or.inr (Or.inr (Or.inl ⟨required, rfl⟩))
  | switched => exact Or.inr (Or.inr (Or.inr ⟨required, rfl⟩))

theorem At.recvfirstnewkeys (h : At s ph) : s.recvfirstnewkeys = !(s.recvEpoch == 0) := by
  have renewed := congrArg Control.recvfirstnewkeys h.control
  cases ph <;> exact renewed

theorem At.free (h : At s ph) (later : 0 < s.recvEpoch) : s.firstStrictKex = false := by
  have first : (s.recvEpoch == 0) = false := beq_eq_false_iff_ne.mpr (Nat.ne_of_gt later)
  rw [Ses.firstStrictKex, h.recvfirstnewkeys, first]
  simp

theorem cleared_eq (h : s.requirenext = 0) : { s with requirenext := 0 } = s := by
  rw [← h]

theorem recvUnimplemented_ok (h : recvUnimplemented s = .ok s') :
    ∃ content, s' = { s with out := s.out.send (sshMsgUnimplemented :: content) } := by
  rw [recvUnimplemented, put_control (by decide)] at h
  exact ⟨_, (Except.ok.inj h).symm⟩

/-- A KEXINIT that comes between exchanges, or after ours. -/
theorem recvMsgKexinit_cases (h : At s ph) (between : ph = .idle ∨ ph = .asked)
    (ok : recvMsgKexinit env (Ses.note { s with requirenext := 0 } sshMsgKexinit) buf = .ok s') :
    Process u s sshMsgKexinit buf ph .agreed s' := by
  unfold recvMsgKexinit at ok
  obtain ⟨t, started, ok⟩ := bind_ok.mp ok
  have start : (ph = .asked ∧ t = { s.note sshMsgKexinit with requirenext := 0 } ∨
      ph = .idle ∧ ∃ content, t = (s.note sshMsgKexinit).kexinited content) ∧
      t.recvkexinit = false ∧ t.recvseq = s.recvseq := by
    obtain rfl | rfl := between
    · have sent : s.sentkexinit = false := congrArg Control.sentkexinit h.control
      have allowed : s.out.dataallowed = true := congrArg Control.dataallowed h.control
      have none : s.recvkexinit = false := congrArg Control.recvkexinit h.control
      rw [cleared_eq (congrArg Control.requirenext h.control), startKex,
        if_pos (show (!(s.note sshMsgKexinit).sentkexinit && true) = true by simp [Ses.note, sent])]
        at started
      obtain ⟨content, -, sends⟩ :=
        sendMsgKexinit_eq (s := s.note sshMsgKexinit) allowed env.cookie
      rw [sends] at started
      cases started
      exact ⟨Or.inr ⟨rfl, content, rfl⟩, none, rfl⟩
    · have sent : s.sentkexinit = true := congrArg Control.sentkexinit h.control
      have none : s.recvkexinit = false := congrArg Control.recvkexinit h.control
      rw [startKex, if_neg (by simp [Ses.note, sent])] at started
      cases started
      exact ⟨Or.inl ⟨rfl, rfl⟩, none, rfl⟩
  obtain ⟨start, none, seq⟩ := start
  rw [none, if_neg Bool.false_ne_true] at ok
  obtain ⟨⟨kex, rest⟩, read, ok⟩ := bind_ok.mp ok
  dsimp only at ok
  split at ok
  · cases ok
  · rename_i numbered
    cases ok
    refine .kexinit rfl start read fun strict first => ?_
    simpa [strict, first, seq] using numbered

/-- The reply and our NEWKEYS. -/
theorem sendMsgNewkeys_eq {k : Newkeys} (h : At s .agreed) (keys : s.kex.newkeys = some k)
    (content : Bytes) :
    sendMsgNewkeys { s with
      out := s.out.send (sshMsgKexdhReply :: content), requirenext := 0 } =
      .ok { s.switchedTo k content with requirenext := 0 } := by
  have sent : s.sentkexinit = true := congrArg Control.sentkexinit h.control
  have recv : s.recvkexinit = true := congrArg Control.recvkexinit h.control
  have none : s.recvnewkeys = false := congrArg Control.recvnewkeys h.control
  unfold sendMsgNewkeys
  rw [put_control (by decide)]
  simp only [bind, Except.bind, switchKeys, sent, recv, Bool.and_self, Bool.not_true,
    Bool.false_eq_true, if_false, switchRecv, none, Bool.false_and, switchTrans, if_true,
    switchDone, Bool.and_false, keys, Option.map_some, pure, Except.pure]
  congr 1
  cases strict : s.kex.strictKex <;>
    simp [Ses.switchedTo, Outgoing.newkeys, Outgoing.send, strict, keys, sent, recv, none]

/-- The client's value, where it is expected. -/
theorem recvMsgKexdhInit_cases (h : At s .agreed) (ready : s.kex.ignorenext = false)
    (ok : recvMsgKexdhInit env (Ses.note { s with requirenext := 0 } sshMsgKexdhInit) buf =
      .ok s') : Process u s sshMsgKexdhInit buf .agreed .switched s' := by
  have recv : s.recvkexinit = true := congrArg Control.recvkexinit h.control
  have some : s.kex.newkeys.isSome = true := congrArg Control.newkeys h.control
  obtain ⟨k, keys⟩ := Option.isSome_iff_exists.mp some
  have noted : At (s.note sshMsgKexdhInit) .agreed := ⟨h.control, h.epoch, h.later, h.ignore⟩
  rw [recvMsgKexdhInit, if_neg (by simp [Ses.note, recv])] at ok
  rw [show (Ses.note { s with requirenext := 0 } sshMsgKexdhInit).kex.newkeys = Option.some k from
    keys] at ok
  obtain ⟨value, -, ok⟩ := bind_ok.mp ok
  obtain ⟨content, -, ok⟩ := bind_ok.mp ok
  obtain ⟨t, put, ok⟩ := bind_ok.mp ok
  rw [put_control (by decide)] at put
  cases put
  obtain ⟨t, sent, ok⟩ := bind_ok.mp ok
  obtain rfl := Except.ok.inj ((sendMsgNewkeys_eq noted keys content).symm.trans sent)
  obtain ⟨t, after, ok⟩ := bind_ok.mp ok
  cases ok
  unfold afterFirstNewkeys at after
  split at after
  · cases after
    exact .kexdhInit rfl ready keys content rfl s.tables _ (Or.inl rfl)
  · rename_i first
    obtain ⟨r, ext, after⟩ := bind_ok.mp after
    have once : ((s.note sshMsgKexdhInit).switchedTo k content).donesecondkex = false :=
      Bool.eq_false_iff.mpr first
    unfold sendMsgExtInfo at ext
    split at ext
    · rw [put_control (by decide)] at ext
      cases ext
      split at after
      · cases after
      · cases after
        exact .kexdhInit rfl ready keys content rfl _ _ (Or.inr ⟨once, _, rfl⟩)
    · cases ext
      split at after
      · cases after
      · cases after
        exact .kexdhInit rfl ready keys content rfl _ _ (Or.inl rfl)

/-- The client's NEWKEYS, where it is expected. -/
theorem recvMsgNewkeys_cases (h : At s .switched)
    (ok : recvMsgNewkeys (Ses.note { s with requirenext := 0 } sshMsgNewkeys) = .ok s') :
    Process u s sshMsgNewkeys buf .switched .idle s' := by
  have sent : s.sentkexinit = true := congrArg Control.sentkexinit h.control
  have recv : s.recvkexinit = true := congrArg Control.recvkexinit h.control
  have sentnew : s.sentnewkeys = true := congrArg Control.sentnewkeys h.control
  have valid : s.newRecvValid = true := congrArg Control.newRecvValid h.control
  have used : s.newTransValid = false := congrArg Control.newTransValid h.control
  have some : s.kex.newkeys.isSome = true := congrArg Control.newkeys h.control
  obtain ⟨k, keys⟩ := Option.isSome_iff_exists.mp some
  simp only [recvMsgNewkeys, Ses.note, switchKeys, sent, recv, Bool.and_self, Bool.not_true,
    Bool.false_eq_true, if_false, bind, Except.bind, switchRecv, valid, if_true, switchTrans,
    sentnew, used, Bool.and_false, switchDone, kexinitialise, keys, Option.map_some, pure,
    Except.pure] at ok
  cases ok
  exact .newkeys rfl keys

theorem handle_cases (h : At s ph) (required : s.requirenext = 0 ∨ s.requirenext = type)
    (ready : ph = .agreed → s.kex.ignorenext = false)
    (allowed : u.authdone s.upper = true ∨ type ≤ maxUnauthPacketType)
    (ok : handle u env { s with requirenext := 0 } type buf = .ok s') :
    ∃ ph', Process u s type buf ph ph' s' := by
  -- while nothing is required the session is between exchanges, or waits for a KEXINIT
  have none (other : type ≠ sshMsgKexinit) (other' : type ≠ sshMsgKexdhInit)
      (other'' : type ≠ sshMsgNewkeys) :
      s.requirenext = 0 ∧ (ph = .idle ∨ ph = .asked) ∧ 0 < s.recvEpoch := by
    obtain none | ⟨same, -⟩ | ⟨same, -⟩ | ⟨same, -⟩ := h.required
    · exact none
    all_goals
      rw [same] at required
      obtain zero | same := required
      · exact absurd zero (by decide)
      · subst same
        contradiction
  have premature (between : ph = .idle ∨ ph = .asked) : s.recvkexinit = false := by
    obtain rfl | rfl := between <;> exact congrArg Control.recvkexinit h.control
  unfold handle at ok
  split at ok
  · rename_i request
    subst request
    obtain ⟨zero, between, later⟩ := none (by decide) (by decide) (by decide)
    rw [cleared_eq zero] at ok
    unfold recvMsgServiceRequest at ok
    obtain ⟨⟨name, rest⟩, -, ok⟩ := bind_ok.mp ok
    have accepted (ok : sendMsgServiceAccept (s.note sshMsgServiceRequest) name = .ok s') :
        Process u s sshMsgServiceRequest buf ph ph s' := by
      rw [sendMsgServiceAccept, ask_eq] at ok
      cases ok
      exact .service rfl between later _
    dsimp only at ok
    split at ok
    · exact ⟨ph, accepted ok⟩
    · split at ok
      · split at ok
        · cases ok
        · exact ⟨ph, accepted ok⟩
      · cases ok
  split at ok
  · rename_i kexinit
    subst kexinit
    obtain ⟨-, between, -⟩ | ⟨-, asked⟩ | ⟨same, -⟩ | ⟨same, -⟩ := h.required
    · exact ⟨_, recvMsgKexinit_cases h between ok⟩
    · exact ⟨_, recvMsgKexinit_cases h (Or.inr asked) ok⟩
    all_goals
      rw [same] at required
      exact absurd required (by decide)
  split at ok
  · rename_i value
    subst value
    obtain ⟨-, between, -⟩ | ⟨same, -⟩ | ⟨-, rfl⟩ | ⟨same, -⟩ := h.required
    · rw [recvMsgKexdhInit, if_pos (by simp [Ses.note, premature between])] at ok
      cases ok
    · rw [same] at required
      exact absurd required (by decide)
    · exact ⟨_, recvMsgKexdhInit_cases h (ready rfl) ok⟩
    · rw [same] at required
      exact absurd required (by decide)
  split at ok
  · rename_i newkeys
    subst newkeys
    obtain ⟨-, between, -⟩ | ⟨same, -⟩ | ⟨same, -⟩ | ⟨-, rfl⟩ := h.required
    · unfold recvMsgNewkeys switchKeys at ok
      rw [if_pos (by simp [Ses.note, premature between])] at ok
      cases ok
    · rw [same] at required
      exact absurd required (by decide)
    · rw [same] at required
      exact absurd required (by decide)
    · exact ⟨_, recvMsgNewkeys_cases h ok⟩
  rename_i request kexinit value newkeys
  obtain ⟨zero, between, later⟩ := none kexinit value newkeys
  rw [cleared_eq zero] at ok
  split at ok
  · rename_i known
    unfold recvUpper at ok
    obtain ⟨⟨upper, replies⟩, handled, ok⟩ := bind_ok.mp ok
    dsimp only at ok
    rw [ask_eq] at ok
    cases ok
    exact ⟨ph, .upper known between later allowed handled⟩
  · obtain ⟨content, rfl⟩ := recvUnimplemented_ok ok
    exact ⟨ph, .unimplemented (h.free later) content⟩

/-- Every way through `process_packet` in a phase. -/
theorem processPacket_cases (h : At s ph) {payload : Bytes}
    (ok : processPacket u env s payload = .ok s') :
    ∃ type buf ph', payload = type :: buf ∧ Process u s type buf ph ph' s' := by
  unfold processPacket at ok
  obtain ⟨⟨type, buf⟩, got, ok⟩ := bind_ok.mp ok
  have whole : payload = type :: buf := by
    cases payload with
    | nil => cases got
    | cons first rest =>
      cases got
      rfl
  refine ⟨type, buf, ?_⟩
  suffices ∃ ph', Process u s type buf ph ph' s' by
    obtain ⟨ph', way⟩ := this
    exact ⟨ph', whole, way⟩
  dsimp only at ok
  split at ok
  · cases ok
  split at ok
  · rename_i harmless
    rw [Bool.and_eq_true, Bool.not_eq_true'] at harmless
    cases ok
    exact ⟨ph, .skip harmless.1⟩
  split at ok
  · split at ok
    · rename_i other
      rw [Bool.and_eq_true, Bool.not_eq_true'] at other
      obtain ⟨content, rfl⟩ := recvUnimplemented_ok ok
      exact ⟨ph, .unimplemented other.2 content⟩
    · cases ok
  rename_i expected
  have required : s.requirenext = 0 ∨ s.requirenext = type := by
    by_cases zero : s.requirenext = 0
    · exact Or.inl zero
    · apply Or.inr
      by_contra other
      exact expected ⟨zero, other⟩
  unfold processExpected at ok
  split at ok
  · rename_i ignorenext
    cases ok
    obtain rfl := h.ignore ignorenext
    have same : s.requirenext = sshMsgKexdhInit := congrArg Control.requirenext h.control
    rw [same] at required
    obtain zero | required := required
    · exact absurd zero (by decide)
    · exact ⟨_, .ignored required.symm ignorenext⟩
  · rename_i ready
    dsimp only at ok
    split at ok
    · cases ok
    · rename_i gate
      apply handle_cases h required (fun _ => Bool.eq_false_iff.mpr ready) _ ok
      by_cases done : u.authdone s.upper = true
      · exact Or.inl done
      · apply Or.inr
        simpa [done] using gate

/-! ## The phases go on -/

theorem control_ask (s : Ses υ) (upper : υ) (ps : List UpperPayload) :
    (s.answered upper ps).control = s.control := by
  simp only [Ses.control, Ses.answered, (speaks_same _ _).1]

theorem At.answered (h : At s ph) (upper : υ) (ps : List UpperPayload) :
    At (s.answered upper ps) ph := by
  constructor
  · rw [control_ask]
    exact h.control
  · exact ((speaks_same _ _).2.1).trans h.epoch
  · exact h.later
  · exact h.ignore

theorem At.kexinited (h : At s .idle) (content : Bytes) : At (s.kexinited content) .asked := by
  have control := h.control
  have first : (s.recvEpoch == 0) = false := beq_eq_false_iff_ne.mpr (Nat.ne_of_gt (h.later rfl))
  rw [first] at control
  simp only [Ses.control, Phase.control, Control.mk.injEq] at control
  constructor
  · simp only [Ses.control, Ses.kexinited, Outgoing.kexinited, first, Phase.control, control]
    rfl
  · exact h.epoch
  · intro idle
    cases idle
  · intro ignorenext
    cases h.ignore ignorenext

/-- What `read_kex_algos` leaves of the session's flags. -/
theorem readKexAlgos_flags {t : Tables} {kex kex' : KexSes} {rest : Bytes}
    (h : readKexAlgos true t false kex buf = .ok (kex', rest)) :
    kex'.donefirstkex = kex.donefirstkex ∧ kex'.newkeys.isSome = true ∧
      (kex.donefirstkex = true → kex'.strictKex = kex.strictKex) ∧
      (kex.strictKex = true → kex'.strictKex = true) := by
  obtain ⟨o, -, chosen⟩ := Kex.readKexAlgos_ok.mp h
  obtain ⟨k, -, rfl⟩ := Kex.negotiate_ok chosen
  refine ⟨rfl, rfl, ?_, ?_⟩
  · intro done
    simp [KexSes.settle, done]
  · intro strict
    simp [KexSes.settle, strict]

theorem At.processed {ph' : Phase} (h : At s ph) (way : Process u s type buf ph ph' s') :
    At s' ph' := by
  cases way with
  | skip _ => exact h
  | unimplemented _ content => exact ⟨h.control, h.epoch, h.later, h.ignore⟩
  | ignored _ _ => exact ⟨h.control, h.epoch, h.later, fun _ => rfl⟩
  | @kexinit _ t kex _ _ start read first =>
    have asked : At { t with requirenext := s.requirenext } .asked ∧
        t.recvEpoch = s.recvEpoch := by
      obtain ⟨rfl, rfl⟩ | ⟨rfl, content, rfl⟩ := start
      · exact ⟨⟨h.control, h.epoch, h.later, h.ignore⟩, rfl⟩
      · exact ⟨(At.kexinited (s := s.note type) ⟨h.control, h.epoch, h.later, h.ignore⟩ content),
          rfl⟩
    obtain ⟨⟨control, epoch, -, -⟩, same⟩ := asked
    obtain ⟨done, some, -⟩ := readKexAlgos_flags read
    simp only [Ses.control, Phase.control, Control.mk.injEq] at control
    constructor
    · simp only [Ses.control, Ses.agreedOn, Phase.control, done, some, control]
    · exact epoch
    · exact nofun
    · exact fun _ => rfl
  | @kexdhInit k t _ ready keys content start tables out ends =>
    have control := h.control
    simp only [Ses.control, Phase.control, Control.mk.injEq] at control
    have same : out.dataallowed = true ∧ out.epoch = s.out.epoch + 1 := by
      obtain rfl | ⟨-, ext, rfl⟩ := ends
      · subst start
        exact ⟨rfl, rfl⟩
      · subst start
        exact ⟨rfl, rfl⟩
    subst start
    constructor
    · simp only [Ses.control, Ses.switchedTo, Ses.note, Phase.control, control, same.1, keys,
        Option.isSome_some]
    · simpa [Ses.switchedTo, Ses.note, h.epoch] using same.2
    · exact nofun
    · exact fun ignorenext => absurd (ready.symm.trans ignorenext) Bool.false_ne_true
  | @newkeys k _ keys =>
    have control := h.control
    simp only [Ses.control, Phase.control, Control.mk.injEq] at control
    constructor
    · simp [Ses.control, Ses.renewed, Ses.note, Phase.control, control]
    · simpa [Ses.renewed, Ses.note] using h.epoch
    · exact fun _ => Nat.succ_pos _
    · exact fun ignorenext => absurd (h.ignore ignorenext) nofun
  | service _ _ _ replies =>
    exact At.answered (s := s.note type) ⟨h.control, h.epoch, h.later, h.ignore⟩ _ _
  | upper _ _ _ _ _ =>
    exact At.answered (s := s.note type) ⟨h.control, h.epoch, h.later, h.ignore⟩ _ _

/-! ## What is sent -/

/-- Nothing waits that could be sent. -/
def Outgoing.Drained (o : Outgoing) : Prop := o.dataallowed = true → o.replyQueue = []

theorem At.dataallowed (h : At s ph) (between : ph = .idle ∨ ph = .asked) :
    s.out.dataallowed = true ↔ ph = .idle := by
  have allowed := congrArg Control.dataallowed h.control
  obtain rfl | rfl := between
  · simpa [Ses.control, Phase.control] using allowed
  · simpa [Ses.control, Phase.control] using allowed

/-- A packet moves the sending half, and what the protocols above say is recorded. -/
theorem Process.moves {ph' : Phase} (h : At s ph) (drained : s.out.Drained)
    (way : Process u s type buf ph ph' s') :
    ∃ said, s'.asked = s.asked ++ said ∧ Moves s'.kex.strictKex s.out said s'.out := by
  have speaks {strict : Bool} (ps : List UpperPayload) :
      Moves strict s.out (ps.map (·.1)) ((ps.map (·.1)).foldl Outgoing.speak s.out) := by
    refine speaks_moves (fun p hp => ?_) drained
    obtain ⟨q, -, rfl⟩ := List.mem_map.mp hp
    exact q.2
  cases way with
  | skip _ => exact ⟨[], (List.append_nil _).symm, .refl _⟩
  | unimplemented _ content =>
    exact ⟨[], (List.append_nil _).symm, .single (.control _ content (by decide) (by decide))⟩
  | ignored _ _ => exact ⟨[], (List.append_nil _).symm, .refl _⟩
  | @kexinit _ t kex _ _ start read first =>
    obtain ⟨rfl, rfl⟩ | ⟨rfl, content, rfl⟩ := start
    · exact ⟨[], (List.append_nil _).symm, .refl _⟩
    · have idle := (h.dataallowed (Or.inl rfl)).mpr rfl
      exact ⟨[], (List.append_nil _).symm, .single (.kexinit content idle)⟩
  | @kexdhInit k t _ ready keys content start tables out ends =>
    have held : s.out.dataallowed = false := congrArg Control.dataallowed h.control
    have reply : Moves s.kex.strictKex s.out []
        ((s.out.send (sshMsgKexdhReply :: content)).newkeys s.kex.strictKex) :=
      (Moves.single (.control _ content (by decide) (by decide))).next (.newkeys held)
    obtain rfl | ⟨-, ext, rfl⟩ := ends
    · subst start
      exact ⟨[], (List.append_nil _).symm, reply⟩
    · subst start
      exact ⟨[], (List.append_nil _).symm, reply.next (.control _ ext (by decide) (by decide))⟩
  | newkeys _ _ => exact ⟨[], (List.append_nil _).symm, .refl _⟩
  | service _ _ _ replies => exact ⟨_, rfl, speaks replies⟩
  | @upper _ _ _ replies _ _ _ _ _ => exact ⟨_, rfl, speaks replies⟩

end

end Ikofi.Transport
