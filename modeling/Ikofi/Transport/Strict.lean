import Ikofi.Transport.Exchange

/-!
# Strict key exchange

With strict key exchange nothing can be put into the first exchange: both sides' clear
packets are exactly those of the exchange, and the numbers of the packets start again
with every new key.
-/

namespace Ikofi.Transport

open Wire Runs

open Packet (uint uint_succ packetIsOkayKex sshMsgKexinit sshMsgNewkeys)

open Kex (Tables KexSes Newkeys readOffer)

/-- The types of the packets received under the first keys, which are none. -/
def earlyTypes (received : List Received) : List UInt8 :=
  (received.filter (·.epoch == 0)).map fun x => typeOf x.payload

theorem earlyTypes_append (received : List Received) (e n : Nat) (payload : Bytes) :
    earlyTypes (received ++ [⟨e, n, payload⟩]) =
      earlyTypes received ++ if e == 0 then [typeOf payload] else [] := by
  simp only [earlyTypes, List.filter_append, List.map_append]
  by_cases first : (e == 0) = true
  · simp [first]
  · simp [first]

/-- The first packet is a KEXINIT that announces a guess, and the guess is wrong. -/
def WrongGuess (tables : Tables) (received : List Received) : Prop :=
  ∃ x o rest, received.head? = some x ∧ readOffer x.payload.tail = .ok (o, rest) ∧
    o.follows = true ∧ ¬ o.RightGuess true tables

/-- What the client has sent up to its value: a wrong guess is followed by another one. -/
def Valued (wrong : Prop) (received : List UInt8) : Prop :=
  (¬ wrong ∧ received = [sshMsgKexinit, sshMsgKexdhInit]) ∨
    (wrong ∧ received = [sshMsgKexinit, sshMsgKexdhInit, sshMsgKexdhInit])

/-- All that the client sends in clear. -/
def Ended (wrong : Prop) (received : List UInt8) : Prop :=
  ∃ before, Valued wrong before ∧ received = before ++ [sshMsgNewkeys]

def serverTypes : List UInt8 := [sshMsgKexinit, sshMsgKexdhReply, sshMsgNewkeys]

/-- What has been received and sent in clear while strict key exchange is agreed on, in
each phase of the first exchange and behind it. -/
def Opening (first strict ignorenext : Bool) (wrong : Prop) (received sent : List UInt8) :
    Phase → Prop
  | .asked => if first then strict = false else
      strict = true → Ended wrong received ∧ sent = serverTypes
  | .agreed => strict = true →
      if first then (received = [sshMsgKexinit] ∧ (ignorenext = true ↔ wrong) ∨
          wrong ∧ received = [sshMsgKexinit, sshMsgKexdhInit] ∧ ignorenext = false) ∧
        sent = [sshMsgKexinit]
      else Ended wrong received ∧ sent = serverTypes
  | .switched => strict = true →
      if first then Valued wrong received ∧ sent = serverTypes
      else Ended wrong received ∧ sent = serverTypes
  | .idle => strict = true → Ended wrong received ∧ sent = serverTypes

section
variable {υ ι : Type}

/-- The packets received, numbered as the packets sent are. -/
def Ses.Numbered (s : Ses υ) : Prop :=
  Lib.Stamps 0x100000000 s.kex.strictKex Received.epoch Received.seq s.recvEpoch s.recvseq
    s.received

/-- The invariant of the first exchange, as long as the numbers do not wrap in it. -/
structure Strict (tables : Tables) (s : Ses υ) (ph : Phase) : Prop where
  alone : s.recvEpoch = 0 → s.received = [] →
    s.out.early = [sshMsgKexinit] ∧ s.tables = tables ∧ s.kex.ignorenext = false
  opening : (earlyTypes s.received).length < 0x100000000 →
    Opening (s.recvEpoch == 0) s.kex.strictKex s.kex.ignorenext (WrongGuess tables s.received)
      (earlyTypes s.received) s.out.early ph

variable {u : Upper υ ι} {tables : Tables} {s s' : Ses υ} {ph ph' : Phase}

/-- Before the first keys nothing may be sent but what the exchange needs. -/
theorem At.held (h : At s ph) (first : s.out.epoch = 0) : s.out.dataallowed = false := by
  have allowed := congrArg Control.dataallowed h.control
  have epoch := h.epoch
  cases ph with
  | idle =>
    have later := h.later rfl
    rw [first, if_neg (by decide)] at epoch
    omega
  | asked => exact allowed
  | agreed => exact allowed
  | switched =>
    rw [first, if_pos rfl] at epoch
    omega

theorem early_speaks {o : Outgoing} (held : o.dataallowed = false) (ps : List Bytes) :
    (ps.foldl Outgoing.speak o).early = o.early := by
  induction ps generalizing o with
  | nil => rfl
  | cons p ps ih =>
    have waits : o.speak p = { o with replyQueue := o.replyQueue ++ [p] } := by
      rw [Outgoing.speak, held]
      rfl
    rw [List.foldl_cons, waits]
    exact ih held

/-- A small step that is not a packet sends nothing in clear. -/
theorem early_answered (h : At s ph) (drained : s.out.Drained) (upper : υ)
    (ps : List UpperPayload) : (s.answered upper ps).out.early = s.out.early := by
  by_cases first : s.out.epoch = 0
  · exact early_speaks (h.held first) _
  · have moves : Moves false s.out (ps.map (·.1)) ((ps.map (·.1)).foldl Outgoing.speak s.out) := by
      refine speaks_moves (fun p hp => ?_) drained
      obtain ⟨q, -, rfl⟩ := List.mem_map.mp hp
      exact q.2
    exact (moves.early (Nat.pos_of_ne_zero first)).1

theorem early_flushed (h : At s ph) : s.flushed.out.early = s.out.early := by
  unfold Ses.flushed
  dsimp only
  split
  · rename_i free
    have later : 0 < s.out.epoch := by
      apply Nat.pos_of_ne_zero
      intro first
      rw [h.held first] at free
      cases free
    have drained : Move false s.out [] s.out.drain := .drain free
    exact (Outgoing.early_move later drained).1
  · rfl

/-! ## Numbers -/

theorem Ses.Numbered.receive (h : s.Numbered) (payload : Bytes) : (s.receive payload).Numbered := by
  have ticked := Lib.Stamps.tick (a := Received.mk s.recvEpoch s.recvseq payload) h rfl rfl
  rw [← uint_succ] at ticked
  exact ticked

/-- New keys start the numbers again where the exchange is strict. -/
theorem Ses.Numbered.renewed (h : s.Numbered) (k : Newkeys) : (s.renewed k).Numbered :=
  Lib.Stamps.renew h

theorem Small.numbered (h : At s ph) (numbered : s.Numbered) (small : Small u s ph ph' s') :
    s'.Numbered := by
  have same := small.strict h
  cases small with
  | kexinit _ => exact numbered
  | ask _ _ => exact numbered
  | flush => exact numbered
  | io _ _ => exact numbered
  | packet _ type buf way =>
    have received := numbered.receive (type :: buf)
    cases way with
    | skip _ => exact received
    | unimplemented _ _ => exact received
    | ignored _ _ => exact received
    | @kexinit _ t kex _ _ start _ _ =>
      have moved : t.recvEpoch = s.recvEpoch ∧ t.recvseq = uint (s.recvseq + 1) ∧
          t.received = s.received ++ [⟨s.recvEpoch, s.recvseq, type :: buf⟩] := by
        obtain ⟨-, rfl⟩ | ⟨-, content, rfl⟩ := start <;> exact ⟨rfl, rfl, rfl⟩
      unfold Ses.Numbered Ses.agreedOn
      rw [moved.1, moved.2.1, moved.2.2]
      obtain same | ⟨first, -⟩ := same
      · rw [show kex.strictKex = s.kex.strictKex from same]
        exact received
      · unfold Ses.Numbered Ses.receive at received
        dsimp only at received ⊢
        rw [first] at received ⊢
        exact received.first
    | kexdhInit _ _ _ _ start _ _ _ =>
      subst start
      exact received
    | newkeys _ _ => exact received.renewed (s := (s.receive (type :: buf)).note type) _
    | service _ _ _ _ => exact received
    | upper _ _ _ _ _ => exact received

/-- Every packet sent and every packet received in a run has the number of those before it,
modulo 2^32: with strict key exchange of those under the same keys, and else of all. -/
theorem numbers_start_again {tables : Tables} {cookie : Bytes} {upper : υ} {s₀ : Ses υ}
    {ts : List (Turn ι)} (started : svrSession tables cookie upper = .ok s₀)
    (run : Reached (step u) s₀ ts s) :
    Lib.Each (fun before x => x.seq =
        (before.countP fun y => !s.kex.strictKex || y.epoch == x.epoch) % 0x100000000) s.out.sent ∧
      Lib.Each (fun before x => x.seq =
        (before.countP fun y => !s.kex.strictKex || y.epoch == x.epoch) % 0x100000000)
        s.received := by
  have start : s₀.Numbered := by
    obtain ⟨-, -, content, rfl⟩ := svrSession_steady started
    exact Lib.Stamps.nil _ _ _ _
  obtain ⟨ph, -, -, stamped, numbered⟩ :=
    reached_invariant (I := fun _ s => s.out.Stamped s.kex.strictKex ∧ s.Numbered)
      started ⟨svrSession_stamped started, start⟩
      (fun s ph s' ph' steady holds small =>
        ⟨small.stamped steady holds.1, small.numbered steady.at_ holds.2⟩) run
  exact ⟨stamped.stamps.numbers, numbered.numbers⟩

theorem numbers_start_again_client : ∃ s₀ s,
    svrSession (Kex.serverTables true (· == .rsaSha256)) (List.replicate 16 0) () = .ok s₀ ∧
    Reached (step .silent) s₀ clientTurns s ∧ s.received.length = 4 ∧
    Lib.Each (fun before x => x.seq =
        (before.countP fun y => !s.kex.strictKex || y.epoch == x.epoch) % 0x100000000)
      s.received := by
  obtain ⟨s₀, s, started, run, holds⟩ := exists_reached .silent
    (Kex.serverTables true (· == .rsaSha256)) (List.replicate 16 0) () clientTurns
    (fun s => s.received.length == 4) (by decide +kernel)
  exact ⟨s₀, s, started, run, beq_iff_eq.mp holds, (numbers_start_again started run).2⟩

/-! ## The first exchange -/

theorem wrongGuess_append {tables : Tables} {received : List Received} (some : received ≠ [])
    (x : Received) : WrongGuess tables (received ++ [x]) ↔ WrongGuess tables received := by
  obtain ⟨y, ys, rfl⟩ := List.exists_cons_of_ne_nil some
  rfl

/-- The flag that has the next packet ignored tells of a wrong guess. -/
theorem wrongGuess_read {tables : Tables} {x : Received} {kex kex' : KexSes} {rest : Bytes}
    (read : Kex.readKexAlgos true tables false kex x.payload.tail = .ok (kex', rest))
    (fresh : kex.ignorenext = false) : kex'.ignorenext = true ↔ WrongGuess tables [x] := by
  obtain ⟨-, o, -, -, -, -, offer, -, -, ignore, right, -⟩ := Kex.kex_chosen read
  rw [ignore, fresh, Bool.false_or, Bool.and_eq_true, Bool.not_eq_true', ← Bool.not_eq_true, right]
  constructor
  · rintro ⟨follows, wrong⟩
    exact ⟨x, o, rest, rfl, offer, follows, wrong⟩
  · rintro ⟨y, o', rest', ⟨⟩, offer', follows, wrong⟩
    rw [offer] at offer'
    cases offer'
    exact ⟨follows, wrong⟩

theorem Opening.loose {first strict ignorenext : Bool} {wrong : Prop} {received sent : List UInt8}
    (loose : strict = false) : Opening first strict ignorenext wrong received sent ph := by
  subst loose
  cases ph <;> cases first <;> simp [Opening]

theorem opening_later {strict ignorenext : Bool} {wrong : Prop} {received sent : List UInt8} :
    Opening false strict ignorenext wrong received sent ph ↔
      (strict = true → Ended wrong received ∧ sent = serverTypes) := by
  cases ph <;> simp [Opening]

section
variable {strict ignorenext : Bool} {wrong wrong' : Prop} {received sent : List UInt8}

theorem Opening.ignored (h : Opening true strict true wrong received sent .agreed)
    (same : received ≠ [] → (wrong' ↔ wrong)) :
    Opening true strict false wrong' (received ++ [sshMsgKexdhInit]) sent .agreed := by
  intro on
  obtain ⟨⟨one, tells⟩ | ⟨-, -, ready⟩, asked⟩ := h on
  · subst one
    exact ⟨Or.inr ⟨(same (by simp)).mpr (tells.mp rfl), rfl, rfl⟩, asked⟩
  · cases ready

theorem Opening.kexdhInit (h : Opening true strict false wrong received sent .agreed)
    (same : received ≠ [] → (wrong' ↔ wrong)) :
    Opening true strict false wrong' (received ++ [sshMsgKexdhInit])
      (sent ++ [sshMsgKexdhReply, sshMsgNewkeys]) .switched := by
  intro on
  obtain ⟨⟨one, tells⟩ | ⟨guessed, two, -⟩, asked⟩ := h on
  · subst one asked
    have right : ¬ wrong := fun guessed => absurd (tells.mpr guessed) Bool.false_ne_true
    exact ⟨Or.inl ⟨fun guessed => right ((same (by simp)).mp guessed), rfl⟩, rfl⟩
  · subst two asked
    exact ⟨Or.inr ⟨(same (by simp)).mpr guessed, rfl⟩, rfl⟩

theorem Opening.newkeys (h : Opening true strict ignorenext wrong received sent .switched)
    (same : received ≠ [] → (wrong' ↔ wrong)) :
    Opening false strict ignorenext wrong' (received ++ [sshMsgNewkeys]) sent .idle := by
  intro on
  obtain ⟨⟨right, all⟩ | ⟨guessed, all⟩, answered⟩ := h on
  · subst all
    exact ⟨⟨_, Or.inl ⟨fun guessed => right ((same (by simp)).mp guessed), rfl⟩, rfl⟩, answered⟩
  · subst all
    exact ⟨⟨_, Or.inr ⟨(same (by simp)).mpr guessed, rfl⟩, rfl⟩, answered⟩

theorem Ended.congr (h : Ended wrong received) (same : wrong' ↔ wrong) : Ended wrong' received := by
  obtain ⟨before, valued, all⟩ := h
  exact ⟨before, by rwa [Valued, same], all⟩

theorem Ended.ne_nil (h : Ended wrong received) : received ≠ [] := by
  obtain ⟨before, -, rfl⟩ := h
  simp

end

/-- A small step receives one packet at most, and never goes back to older keys. -/
theorem Small.received (small : Small u s ph ph' s') :
    (s'.received = s.received ∨
      ∃ payload, s'.received = s.received ++ [⟨s.recvEpoch, s.recvseq, payload⟩]) ∧
      s.recvEpoch ≤ s'.recvEpoch := by
  cases small with
  | kexinit _ => exact ⟨Or.inl rfl, Nat.le_refl _⟩
  | ask _ _ => exact ⟨Or.inl rfl, Nat.le_refl _⟩
  | flush => exact ⟨Or.inl rfl, Nat.le_refl _⟩
  | io _ _ => exact ⟨Or.inl rfl, Nat.le_refl _⟩
  | packet _ type buf way =>
    cases way with
    | kexinit _ start _ _ =>
      obtain ⟨-, rfl⟩ | ⟨-, content, rfl⟩ := start <;> exact ⟨Or.inr ⟨_, rfl⟩, Nat.le_refl _⟩
    | kexdhInit _ _ _ _ start _ _ _ =>
      subst start
      exact ⟨Or.inr ⟨_, rfl⟩, Nat.le_refl _⟩
    | newkeys _ _ => exact ⟨Or.inr ⟨_, rfl⟩, Nat.le_succ _⟩
    | skip _ | unimplemented _ _ | ignored _ _ | service _ _ _ _ | upper _ _ _ _ _ =>
      exact ⟨Or.inr ⟨_, rfl⟩, Nat.le_refl _⟩

/-- Once the keys have changed nothing more belongs to the first exchange. -/
theorem Strict.later (h : Strict tables s ph) (at_ : At s ph) (later : 0 < s.recvEpoch)
    (small : Small u s ph ph' s') : Strict tables s' ph' := by
  obtain ⟨received, epoch⟩ := small.received
  obtain ⟨said, -, moves⟩ := small.moves at_
  have sentLater : 0 < s.out.epoch := by
    rw [at_.epoch]
    split <;> omega
  have sent : s'.out.early = s.out.early := (moves.early sentLater).1
  have strict : s'.kex.strictKex = s.kex.strictKex := by
    obtain same | ⟨first, -⟩ := small.strict at_
    · exact same
    · omega
  have behind : 0 < s'.recvEpoch := Nat.lt_of_lt_of_le later epoch
  have types : earlyTypes s'.received = earlyTypes s.received := by
    obtain same | ⟨payload, same⟩ := received
    · rw [same]
    · rw [same, earlyTypes_append, beq_eq_false_iff_ne.mpr (Nat.ne_of_gt later)]
      exact List.append_nil _
  have guess (some : s.received ≠ []) :
      WrongGuess tables s'.received ↔ WrongGuess tables s.received := by
    obtain same | ⟨payload, same⟩ := received
    · rw [same]
    · rw [same]
      exact wrongGuess_append some _
  constructor
  · exact fun first => absurd first (Nat.ne_of_gt behind)
  · rw [types, sent, strict]
    intro few
    have opened := h.opening few
    rw [beq_eq_false_iff_ne.mpr (Nat.ne_of_gt later), opening_later] at opened
    rw [beq_eq_false_iff_ne.mpr (Nat.ne_of_gt behind), opening_later]
    intro on
    obtain ⟨ended, answered⟩ := opened on
    refine ⟨ended.congr (guess fun none => ended.ne_nil ?_), answered⟩
    rw [none]
    rfl

/-- Under the first keys everything that came has come in clear. -/
theorem Ses.Numbered.all_early (h : s.Numbered) (first : s.recvEpoch = 0) :
    (earlyTypes s.received).length = s.received.length := by
  rw [earlyTypes, List.length_map, List.filter_eq_self.mpr]
  intro x hx
  have bound := h.bound x hx
  rw [first] at bound
  exact beq_iff_eq.mpr (Nat.eq_zero_of_le_zero bound)

/-- The number of a packet tells that nothing came before it. -/
theorem Ses.Numbered.alone (h : s.Numbered) (first : s.recvEpoch = 0)
    (short : s.received.length + 1 < 0x100000000) (one : uint (s.recvseq + 1) = 1) :
    s.received = [] := by
  unfold Ses.Numbered at h
  rw [first] at h
  have number := h.length
  rw [Nat.mod_eq_of_lt (Nat.lt_of_succ_lt short)] at number
  rw [uint_succ, number, Nat.mod_eq_of_lt short] at one
  exact List.eq_nil_of_length_eq_zero (Nat.succ.inj one)

/-- The reply and our NEWKEYS are the last packets in clear. -/
theorem early_switchedTo (first : s.out.epoch = 0) (k : Newkeys) (content : Bytes) :
    (s.switchedTo k content).out.early = s.out.early ++ [sshMsgKexdhReply, sshMsgNewkeys] ∧
      (s.switchedTo k content).out.epoch = 1 := by
  have replied := Outgoing.early_send s.out (sshMsgKexdhReply :: content)
  have ended := Outgoing.early_send (s.out.send (sshMsgKexdhReply :: content)) [sshMsgNewkeys]
  rw [first] at replied
  rw [replied, show (s.out.send (sshMsgKexdhReply :: content)).epoch = 0 from first,
    List.append_assoc] at ended
  exact ⟨ended, congrArg (· + 1) first⟩

/-- The packets of the first exchange come in their order. -/
theorem Strict.process {type : UInt8} {buf : Bytes} (h : Strict tables s ph) (at_ : At s ph)
    (numbered : s.Numbered) (first : s.recvEpoch = 0)
    (way : Process u (s.receive (type :: buf)) type buf ph ph' s') : Strict tables s' ph' := by
  have types : earlyTypes (s.received ++ [⟨s.recvEpoch, s.recvseq, type :: buf⟩]) =
      earlyTypes s.received ++ [type] := by
    rw [earlyTypes_append, first]
    rfl
  have some {p : Prop} (none : (s.receive (type :: buf)).received = []) : p :=
    absurd none (by simp [Ses.receive])
  have guess (types : earlyTypes s.received ≠ []) :
      WrongGuess tables (s.received ++ [⟨s.recvEpoch, s.recvseq, type :: buf⟩]) ↔
        WrongGuess tables s.received := by
    refine wrongGuess_append (fun none => types ?_) _
    rw [none]
    rfl
  have before (few : (earlyTypes (s.receive (type :: buf)).received).length < 0x100000000) :
      Opening true s.kex.strictKex s.kex.ignorenext (WrongGuess tables s.received)
        (earlyTypes s.received) s.out.early ph := by
    rw [Ses.receive, types, List.length_append] at few
    have opened := h.opening (Nat.lt_of_le_of_lt (Nat.le_add_right _ _) few)
    rwa [first] at opened
  have loose (free : (s.receive (type :: buf)).firstStrictKex = false) :
      s.kex.strictKex = false := by
    have fresh : s.recvfirstnewkeys = false := by
      rw [at_.recvfirstnewkeys, first]
      rfl
    simpa [Ses.firstStrictKex, Ses.receive, fresh] using free
  have now : (s.recvEpoch == 0) = true := beq_iff_eq.mpr first
  cases way with
  | skip free =>
    have off := loose free
    exact ⟨fun _ => some, fun _ => .loose off⟩
  | unimplemented free _ =>
    have off := loose free
    exact ⟨fun _ => some, fun _ => .loose off⟩
  | ignored required ignorenext =>
    subst required
    refine ⟨fun _ => some, fun few => ?_⟩
    have opened := before few
    rw [show s.kex.ignorenext = true from ignorenext] at opened
    change Opening (s.recvEpoch == 0) s.kex.strictKex false _
      (earlyTypes (s.received ++ [⟨s.recvEpoch, s.recvseq, sshMsgKexdhInit :: buf⟩])) s.out.early _
    rw [now, types]
    exact opened.ignored guess
  | @kexinit _ t kex _ required start read numberOne =>
    subst required
    obtain ⟨rfl, rfl⟩ | ⟨rfl, -⟩ := start
    · refine ⟨fun _ => some, fun few => ?_⟩
      change Opening (s.recvEpoch == 0) kex.strictKex kex.ignorenext _
        (earlyTypes (s.received ++ [⟨s.recvEpoch, s.recvseq, sshMsgKexinit :: buf⟩])) s.out.early _
      intro strict
      have fresh : s.kex.donefirstkex = false := by
        have done := congrArg Control.donefirstkex at_.control
        rw [first] at done
        exact done
      have short : s.received.length + 1 < 0x100000000 := by
        rwa [Ses.agreedOn, Ses.note, Ses.receive, types, List.length_append,
          numbered.all_early first] at few
      have alone := numbered.alone first short
        (numberOne strict ((readKexAlgos_flags read).1.trans fresh))
      obtain ⟨asked, own, ready⟩ := h.alone first alone
      subst own
      have tells := wrongGuess_read (x := ⟨s.recvEpoch, s.recvseq, sshMsgKexinit :: buf⟩) read ready
      rw [now, if_pos rfl, types, alone]
      refine ⟨Or.inl ⟨rfl, tells.trans ?_⟩, asked⟩
      rw [Ses.agreedOn, Ses.note, Ses.receive, alone]
      rfl
    · exact absurd first (Nat.ne_of_gt (at_.later rfl))
  | @kexdhInit k t required ready keys content start tables out ends =>
    subst required
    subst start
    have fresh : s.out.epoch = 0 := at_.epoch.trans first
    obtain ⟨replied, later⟩ :=
      early_switchedTo (s := (s.receive (sshMsgKexdhInit :: buf)).note sshMsgKexdhInit) fresh k
        content
    have sent : out.early = s.out.early ++ [sshMsgKexdhReply, sshMsgNewkeys] := by
      obtain rfl | ⟨-, ext, rfl⟩ := ends
      · exact replied
      · rw [Outgoing.early_send, later, replied]
        exact List.append_nil _
    refine ⟨fun _ => some, fun few => ?_⟩
    have opened := before few
    rw [show s.kex.ignorenext = false from ready] at opened
    change Opening (s.recvEpoch == 0) s.kex.strictKex s.kex.ignorenext _
      (earlyTypes (s.received ++ [⟨s.recvEpoch, s.recvseq, sshMsgKexdhInit :: buf⟩])) out.early _
    rw [now, types, sent, show s.kex.ignorenext = false from ready]
    exact opened.kexdhInit guess
  | newkeys required keys =>
    subst required
    refine ⟨fun _ => some, fun few => ?_⟩
    change Opening (s.recvEpoch + 1 == 0) s.kex.strictKex s.kex.ignorenext _
      (earlyTypes (s.received ++ [⟨s.recvEpoch, s.recvseq, sshMsgNewkeys :: buf⟩])) s.out.early _
    rw [show (s.recvEpoch + 1 == 0) = false from rfl, types]
    exact (before few).newkeys guess
  | service _ _ later _ => exact absurd first (Nat.ne_of_gt later)
  | upper _ _ later _ _ => exact absurd first (Nat.ne_of_gt later)

theorem Strict.small (h : Strict tables s ph) (at_ : At s ph) (numbered : s.Numbered)
    (small : Small u s ph ph' s') : Strict tables s' ph' := by
  have answered (drained : s.out.Drained) (upper : υ) (ps : List UpperPayload) :
      Strict tables (s.answered upper ps) ph := by
    have same := early_answered at_ drained upper ps
    constructor
    · intro first none
      rw [same]
      exact h.alone first none
    · intro few
      rw [same]
      exact h.opening few
  by_cases first : s.recvEpoch = 0
  · cases small with
    | kexinit _ => exact absurd first (Nat.ne_of_gt (at_.later rfl))
    | ask drained ps => exact answered drained _ ps
    | packet _ type buf way => exact h.process at_ numbered first way
    | flush =>
      have same := early_flushed at_
      constructor
      · intro first none
        rw [same]
        exact h.alone first none
      · intro few
        rw [same]
        exact h.opening few
    | io drained _ => exact answered drained _ _
  · exact h.later at_ (Nat.pos_of_ne_zero first) small

/-- When strict key exchange was agreed on and the client's NEWKEYS has come, then all that
had been received in clear is the client's KEXINIT, its value (once more exactly if the KEXINIT
announced a guess that was wrong) and its NEWKEYS, and all that was sent is our KEXINIT, the
reply and our NEWKEYS: nothing was put in between, or in front. -/
theorem strict_first_exchange {cookie : Bytes} {upper : υ} {s₀ : Ses υ}
    {ts : List (Turn ι)} (started : svrSession tables cookie upper = .ok s₀)
    (run : Reached (step u) s₀ ts s) (strict : s.kex.strictKex = true)
    (renewed : s.recvfirstnewkeys = true)
    (few : (earlyTypes s.received).length < 0x100000000) :
    Ended (WrongGuess tables s.received) (earlyTypes s.received) ∧ s.out.early = serverTypes := by
  have start : s₀.Numbered ∧ Strict tables s₀ .asked := by
    obtain ⟨-, -, content, rfl⟩ := svrSession_steady started
    exact ⟨Lib.Stamps.nil _ _ _ _, fun _ _ => ⟨rfl, rfl, rfl⟩, fun _ => .loose rfl⟩
  obtain ⟨ph, steady, -, -, holds⟩ :=
    reached_invariant (I := fun ph s => s.Numbered ∧ Strict tables s ph) started start
      (fun s ph s' ph' steady holds small =>
        ⟨small.numbered steady.at_ holds.1, holds.2.small steady.at_ holds.1 small⟩) run
  have later : (s.recvEpoch == 0) = false := by
    have flag := steady.at_.recvfirstnewkeys
    rwa [renewed, eq_comm, Bool.not_eq_true'] at flag
  have opened := holds.opening few
  rw [later, opening_later] at opened
  exact opened strict

/-- A client that guesses the wrong host key, and sends its value again. -/
def guessedTurns : List (Turn Unit) :=
  let env : Env Unit := ⟨List.replicate 16 0, .ok [], ()⟩
  [{ packet := some (Kex.sendMsgKexinit (Kex.clientTables false fun _ => true)
      (List.replicate 16 7) true), env },
   { packet := some (sshMsgKexdhInit :: putString [1]), env },
   { packet := some (sshMsgKexdhInit :: putString [2]), env },
   { packet := some [sshMsgNewkeys], env }]

theorem strict_first_exchange_guessed : ∃ s₀ s,
    svrSession (Kex.serverTables true (· == .rsaSha256)) (List.replicate 16 0) () = .ok s₀ ∧
    Reached (step .silent) s₀ guessedTurns s ∧
    WrongGuess (Kex.serverTables true (· == .rsaSha256)) s.received ∧
    s.out.early = serverTypes := by
  obtain ⟨s₀, s, started, run, holds⟩ := exists_reached .silent
    (Kex.serverTables true (· == .rsaSha256)) (List.replicate 16 0) () guessedTurns
    (fun s => s.kex.strictKex && s.recvfirstnewkeys &&
      earlyTypes s.received == [sshMsgKexinit, sshMsgKexdhInit, sshMsgKexdhInit, sshMsgNewkeys])
    (by decide +kernel)
  simp only [Bool.and_eq_true, beq_iff_eq] at holds
  obtain ⟨⟨strict, renewed⟩, types⟩ := holds
  have few : (earlyTypes s.received).length < 0x100000000 := by
    rw [types]
    decide
  obtain ⟨⟨before, valued, all⟩, sent⟩ := strict_first_exchange started run strict renewed few
  rw [types] at all
  rcases valued with ⟨-, rfl⟩ | ⟨wrong, -⟩
  · exact absurd all (by decide)
  · exact ⟨s₀, s, started, run, wrong, sent⟩

end

end Ikofi.Transport
