import Ikofi.Kex.Negotiate

/-!
# What is chosen

Reading the message and choosing from it may be told apart: for whatever bytes the
other side sends, `read_kex_algos` returns if the message can be read whole and in
every list a name is common, and then takes the client's first of them.
-/

namespace Ikofi.Kex

open Wire

open Packet (Comp)

section
variable {isServer guess : Bool} {t : Tables} {ses ses' : KexSes} {payload rest : Bytes} {o : Offer}

theorem ok_bind {α β : Type} (a : α) (f : α → Except Halt β) : (Except.ok a >>= f) = f a := rfl

/-- A message that can be read whole is decided by what it says. -/
theorem readKexAlgos_of_readOffer (h : readOffer payload = .ok (o, rest)) :
    readKexAlgos isServer t guess ses payload =
      (·, rest) <$> negotiate isServer t guess ses o := by
  simp only [readOffer, bind_ok, Prod.exists, pure, Except.pure, Except.ok.injEq,
    Prod.mk.injEq] at h
  obtain ⟨b0, h0, kex, b1, h1, hostkey, b2, h2, encC2s, b3, h3, encS2c, b4, h4, macC2s, b5, h5,
    macS2c, b6, h6, compC2s, b7, h7, compS2c, b8, h8, b9, h9, b10, h10, follows, b11, h11, n, b12,
    h12, rfl, rfl⟩ := h
  simp only [readKexAlgos, negotiate, h0, h9, h10, h11, h12, bufHasAlgo_of_readNames h1,
    bufMatchAlgo_of_readNames h1, bufMatchAlgo_of_readNames h2, bufMatchAlgo_of_readNames h3,
    bufMatchAlgo_of_readNames h4, bufMatchAlgo_of_readNames h5, bufMatchAlgo_of_readNames h6,
    bufMatchAlgo_of_readNames h7, bufMatchAlgo_of_readNames h8, bufHasAlgoWhen_of_readNames h1,
    ok_bind, map_bind]
  rfl

/-- Where `read_kex_algos` returns the message could be read whole. -/
theorem readOffer_of_readKexAlgos
    (h : readKexAlgos isServer t guess ses payload = .ok (ses', rest)) :
    ∃ o, readOffer payload = .ok (o, rest) := by
  obtain ⟨b0, h0, h⟩ := bind_ok.mp h
  obtain ⟨_, -, h⟩ := bind_ok.mp h
  obtain ⟨_, -, h⟩ := bind_ok.mp h
  obtain ⟨_, -, h⟩ := bind_ok.mp h
  -- every list is read, and then something is chosen from it
  obtain ⟨⟨_, _, b1⟩, h1, h⟩ := bind_ok.mp h
  obtain ⟨_, -, h⟩ := bind_ok.mp h
  obtain ⟨⟨_, _, b2⟩, h2, h⟩ := bind_ok.mp h
  obtain ⟨_, -, h⟩ := bind_ok.mp h
  obtain ⟨⟨_, _, b3⟩, h3, h⟩ := bind_ok.mp h
  obtain ⟨_, -, h⟩ := bind_ok.mp h
  obtain ⟨⟨_, _, b4⟩, h4, h⟩ := bind_ok.mp h
  obtain ⟨_, -, h⟩ := bind_ok.mp h
  obtain ⟨⟨_, _, b5⟩, h5, h⟩ := bind_ok.mp h
  obtain ⟨_, -, h⟩ := bind_ok.mp h
  obtain ⟨⟨_, _, b6⟩, h6, h⟩ := bind_ok.mp h
  obtain ⟨_, -, h⟩ := bind_ok.mp h
  obtain ⟨⟨_, _, b7⟩, h7, h⟩ := bind_ok.mp h
  obtain ⟨_, -, h⟩ := bind_ok.mp h
  obtain ⟨⟨_, _, b8⟩, h8, h⟩ := bind_ok.mp h
  obtain ⟨_, -, h⟩ := bind_ok.mp h
  obtain ⟨b9, h9, h⟩ := bind_ok.mp h
  obtain ⟨b10, h10, h⟩ := bind_ok.mp h
  obtain ⟨⟨follows, b11⟩, h11, h⟩ := bind_ok.mp h
  obtain ⟨⟨n, b12⟩, h12, h⟩ := bind_ok.mp h
  obtain ⟨-, rfl⟩ := Prod.mk.inj (Except.ok.inj h)
  obtain ⟨kex, h1⟩ := readNames_of_bufMatchAlgo h1
  obtain ⟨hostkey, h2⟩ := readNames_of_bufMatchAlgo h2
  obtain ⟨encC2s, h3⟩ := readNames_of_bufMatchAlgo h3
  obtain ⟨encS2c, h4⟩ := readNames_of_bufMatchAlgo h4
  obtain ⟨macC2s, h5⟩ := readNames_of_bufMatchAlgo h5
  obtain ⟨macS2c, h6⟩ := readNames_of_bufMatchAlgo h6
  obtain ⟨compC2s, h7⟩ := readNames_of_bufMatchAlgo h7
  obtain ⟨compS2c, h8⟩ := readNames_of_bufMatchAlgo h8
  refine ⟨⟨kex, hostkey, encC2s, encS2c, macC2s, macS2c, compC2s, compS2c, follows⟩, ?_⟩
  simp only [readOffer, h0, h1, h2, h3, h4, h5, h6, h7, h8, h9, h10, h11, h12, ok_bind]
  rfl

theorem readKexAlgos_ok :
    readKexAlgos isServer t guess ses payload = .ok (ses', rest) ↔
      ∃ o, readOffer payload = .ok (o, rest) ∧ negotiate isServer t guess ses o = .ok ses' := by
  constructor
  · intro h
    obtain ⟨o, read⟩ := readOffer_of_readKexAlgos h
    refine ⟨o, read, ?_⟩
    rw [readKexAlgos_of_readOffer read] at h
    cases chosen : negotiate isServer t guess ses o with
    | error e =>
      rw [chosen] at h
      cases h
    | ok s =>
      rw [chosen] at h
      cases h
      rfl
  · rintro ⟨o, read, chosen⟩
    rw [readKexAlgos_of_readOffer read, chosen]
    rfl

/-- `a` is the entry of the table for the first of the client's names that the
server has. -/
structure Picks {δ : Type} (isServer : Bool) (l : List (AlgoType δ)) (remotenames : List Bytes)
    (a : AlgoType δ) : Prop where
  member : a ∈ l
  usable : a.usable = true
  first : pickedOf isServer l remotenames = some a.name

/-- The keys of one direction, chosen from the lists of that direction. -/
structure KeyContextDirectional.Chosen (k : KeyContextDirectional) (isServer : Bool) (t : Tables)
    (comp : List (AlgoType Comp)) (encs macs comps : List Bytes) : Prop where
  crypt : ∃ a, Picks isServer t.sshciphers encs a ∧ a.data = k.crypt
  mac : match k.crypt.cryptMode.aeadMac with
    | some m => k.algoMac = m
    | none => ∃ a, Picks isServer t.sshhashes macs a ∧ a.data = k.algoMac
  comp : ∃ a, Picks isServer comp comps a ∧ a.data = k.algoComp

/-- The keys with which the client sends. -/
def Newkeys.c2s (k : Newkeys) (isServer : Bool) : KeyContextDirectional :=
  if isServer then k.recv else k.trans

def Newkeys.s2c (k : Newkeys) (isServer : Bool) : KeyContextDirectional :=
  if isServer then k.trans else k.recv

structure Newkeys.Chosen (k : Newkeys) (isServer : Bool) (t : Tables) (o : Offer) : Prop where
  kex : ∃ a, Picks isServer t.sshkex o.kex a ∧ a.data = some k.algoKex
  hostkey : ∃ a, Picks isServer t.sigalgs o.hostkey a ∧ a.data = k.algoSignature
  c2s : (k.c2s isServer).Chosen isServer t t.compressAlgosC2s o.encC2s o.macC2s o.compC2s
  s2c : (k.s2c isServer).Chosen isServer t t.compressAlgosS2c o.encS2c o.macS2c o.compS2c

/-- `goodguess` of both lists. -/
def goodGuess (isServer : Bool) (t : Tables) (o : Offer) : Bool :=
  (matchAlgo isServer t.sshkex (o.kex.contains kexguess2AlgoName) o.kex).2 &&
    (matchAlgo isServer t.sigalgs (o.kex.contains kexguess2AlgoName) o.hostkey).2

/-- The client's guess was right, as this side sees it: the first names of both lists are to be
used, by the rule that the other side's list of key exchanges asks for. -/
structure Offer.RightGuess (o : Offer) (isServer : Bool) (t : Tables) : Prop where
  kex : Leads (o.kex.contains kexguess2AlgoName) (sides isServer t.sshkex o.kex).1
    (sides isServer t.sshkex o.kex).2
  hostkey : Leads (o.kex.contains kexguess2AlgoName) (sides isServer t.sigalgs o.hostkey).1
    (sides isServer t.sigalgs o.hostkey).2

theorem goodGuess_iff {isServer : Bool} {t : Tables} {o : Offer} :
    goodGuess isServer t o = true ↔ o.RightGuess isServer t := by
  rw [goodGuess, Bool.and_eq_true, matchAlgo_goodguess, matchAlgo_goodguess]
  exact ⟨fun h => ⟨h.1, h.2⟩, fun h => ⟨h.kex, h.hostkey⟩⟩

/-! ## What is read -/

/-- The fields of the message behind its type. -/
structure Kexinit where
  cookie : Bytes
  kex : Bytes
  hostkey : Bytes
  encC2s : Bytes
  encS2c : Bytes
  macC2s : Bytes
  macS2c : Bytes
  compC2s : Bytes
  compS2c : Bytes
  langC2s : Bytes
  langS2c : Bytes
  follows : UInt8
  reserved : Nat

def Kexinit.bytes (m : Kexinit) : Bytes :=
  m.cookie ++ (putString m.kex ++ (putString m.hostkey ++ (putString m.encC2s ++
    (putString m.encS2c ++ (putString m.macC2s ++ (putString m.macS2c ++ (putString m.compC2s ++
    (putString m.compS2c ++ (putString m.langC2s ++ (putString m.langS2c ++
    (m.follows :: store32 m.reserved)))))))))))

/-- The names of an offer are those of the lists in the message. -/
structure Offer.Of (o : Offer) (m : Kexinit) : Prop where
  kex : NamesOf m.kex o.kex
  hostkey : NamesOf m.hostkey o.hostkey
  encC2s : NamesOf m.encC2s o.encC2s
  encS2c : NamesOf m.encS2c o.encS2c
  macC2s : NamesOf m.macC2s o.macC2s
  macS2c : NamesOf m.macS2c o.macS2c
  compC2s : NamesOf m.compC2s o.compC2s
  compS2c : NamesOf m.compS2c o.compS2c
  follows : o.follows = (m.follows != 0)

theorem readNames_ok {buf rest : Bytes} {names : List Bytes}
    (h : readNames buf = .ok (names, rest)) :
    ∃ s, buf = putString s ++ rest ∧ NamesOf s names := by
  obtain ⟨⟨s, body⟩, read, h⟩ := bind_ok.mp h
  obtain ⟨found, list, same⟩ := bind_ok.mp h
  cases same
  exact ⟨s, bufGetString_ok read, getAlgolist_ok list⟩

/-- A message that can be read is one, and the offer is what its lists say. -/
theorem readOffer_ok {payload rest : Bytes} {o : Offer} (h : readOffer payload = .ok (o, rest)) :
    ∃ m : Kexinit, payload = m.bytes ++ rest ∧ m.cookie.length = 16 ∧ o.Of m := by
  simp only [readOffer, bind_ok, Prod.exists, pure, Except.pure, Except.ok.injEq,
    Prod.mk.injEq] at h
  obtain ⟨b0, h0, kex, b1, h1, hostkey, b2, h2, encC2s, b3, h3, encS2c, b4, h4, macC2s, b5, h5,
    macS2c, b6, h6, compC2s, b7, h7, compS2c, b8, h8, b9, h9, b10, h10, follows, b11, h11, n, b12,
    h12, rfl, rfl⟩ := h
  obtain ⟨cookie, sixteen, rfl⟩ := bufIncrPos_ok h0
  obtain ⟨s1, rfl, names1⟩ := readNames_ok h1
  obtain ⟨s2, rfl, names2⟩ := readNames_ok h2
  obtain ⟨s3, rfl, names3⟩ := readNames_ok h3
  obtain ⟨s4, rfl, names4⟩ := readNames_ok h4
  obtain ⟨s5, rfl, names5⟩ := readNames_ok h5
  obtain ⟨s6, rfl, names6⟩ := readNames_ok h6
  obtain ⟨s7, rfl, names7⟩ := readNames_ok h7
  obtain ⟨s8, rfl, names8⟩ := readNames_ok h8
  obtain ⟨lang, rfl⟩ := bufEatString_ok h9
  obtain ⟨lang', rfl⟩ := bufEatString_ok h10
  obtain ⟨flag, rfl, flagged⟩ := bufGetBool_ok h11
  obtain rfl := bufGetInt_ok h12
  refine ⟨⟨cookie, s1, s2, s3, s4, s5, s6, s7, s8, lang, lang', flag, n⟩, ?_, sixteen,
    names1, names2, names3, names4, names5, names6, names7, names8, flagged⟩
  simp only [Kexinit.bytes, List.append_assoc, List.cons_append]

/-! ## What is settled -/

theorem orNoMatching_ok {α : Type} {erralgo : String} {x : Option α} {a : α} :
    orNoMatching erralgo x = .ok a ↔ x = some a := by
  cases x with
  | none => exact ⟨nofun, nofun⟩
  | some b =>
    rw [orNoMatching, Except.ok.injEq, Option.some.injEq]

theorem picks_of_matchAlgo {δ : Type} {l : List (AlgoType δ)} {g : Bool} {names : List Bytes}
    {a : AlgoType δ} (h : (matchAlgo isServer l g names).1 = some a) :
    Picks isServer l names a := by
  obtain ⟨b, found, member, usable, first⟩ | ⟨none, -⟩ :=
    matchAlgo_picked isServer l g names
  · rw [h] at found
    cases found
    exact ⟨member, usable, first⟩
  · rw [h] at none
    cases none

/-- The MAC belongs to the cipher or is chosen from the list. -/
theorem chosen_of_macOr {k : KeyContextDirectional} {comp : List (AlgoType Comp)}
    {encs macs comps : List Bytes} {c : AlgoType Cipher} {z : AlgoType Comp}
    (crypt : (matchAlgo isServer t.sshciphers false encs).1 = some c)
    (mac : macOr c.data (matchAlgo isServer t.sshhashes false macs).1 = some k.algoMac)
    (compress : (matchAlgo isServer comp false comps).1 = some z)
    (hc : c.data = k.crypt) (hz : z.data = k.algoComp) :
    k.Chosen isServer t comp encs macs comps := by
  refine ⟨⟨c, picks_of_matchAlgo crypt, hc⟩, ?_, ⟨z, picks_of_matchAlgo compress, hz⟩⟩
  rw [macOr, hc] at mac
  cases aead : k.crypt.cryptMode.aeadMac with
  | some m =>
    rw [aead] at mac
    exact (Option.some.inj mac).symm
  | none =>
    rw [aead] at mac
    obtain ⟨a, found, same⟩ := Option.map_eq_some_iff.mp mac
    exact ⟨a, picks_of_matchAlgo found, same⟩

/-- What `negotiate` settles on. -/
theorem negotiate_ok (h : negotiate isServer t guess ses o = .ok ses') :
    ∃ k : Newkeys, k.Chosen isServer t o ∧
      ses' = ses.settle guess (isServer && !ses.donefirstkex && o.kex.contains sshExtInfoC)
        (!ses.donefirstkex && o.kex.contains (if isServer then sshStrictKexC else sshStrictKexS))
        o.follows (goodGuess isServer t o) k := by
  simp only [negotiate, bind_ok, orNoMatching_ok, pure, Except.pure, Except.ok.injEq] at h
  obtain ⟨kex, hkex, sig, hsig, c, hc, d, hd, m, hm, n, hn, z, hz, y, hy, rfl⟩ := h
  refine ⟨_, ?_, rfl⟩
  obtain ⟨a, ha, data⟩ := Option.bind_eq_some_iff.mp hkex
  constructor
  · refine ⟨a, picks_of_matchAlgo ha, ?_⟩
    cases isServer <;> exact data
  · refine ⟨sig, picks_of_matchAlgo hsig, ?_⟩
    cases isServer <;> rfl
  · apply chosen_of_macOr (c := c) (z := z) hc _ hz
    all_goals cases isServer
    all_goals first | rfl | exact hm
  · apply chosen_of_macOr (c := d) (z := y) hd _ hy
    all_goals cases isServer
    all_goals first | rfl | exact hn

end

/-! ## The code's own tables -/

structure Tables.Proper (t : Tables) : Prop where
  sshkex : Kex.Proper t.sshkex
  sigalgs : Kex.Proper t.sigalgs
  sshciphers : Kex.Proper t.sshciphers
  sshhashes : Kex.Proper t.sshhashes
  compressC2s : Kex.Proper t.compressAlgosC2s
  compressS2c : Kex.Proper t.compressAlgosS2c

/-- Names of a table that may be sent, whether or not they are usable. -/
theorem proper_of_names {δ : Type} {l : List (AlgoType δ)}
    (h : ∀ n ∈ l.map (·.name), n ≠ [] ∧ ((0 : UInt8) ∉ n ∧ comma ∉ n) ∧ n.length ≤ maxNameLen)
    (few : l.length ≤ maxProposedAlgo) : Kex.Proper l := by
  have named {n : Bytes} (hn : n ∈ offered l) : n ∈ l.map (·.name) :=
    List.map_subset _ (List.filter_subset_self l) hn
  constructor
  · exact fun n hn => (h n (named hn)).1
  · exact fun n hn => (h n (named hn)).2.1
  · exact fun n hn => (h n (named hn)).2.2
  · rw [offered, List.length_map]
    exact Nat.le_trans (List.length_filter_le _ _) few

theorem sshkex_proper (client : Bool) : Kex.Proper (sshkex client) := by
  apply proper_of_names
  · cases client <;> decide
  · cases client <;> decide

theorem sigalgs_proper (usable : SignatureType → Bool) : Kex.Proper (sigalgs usable) := by
  apply proper_of_names
  · -- the names are the same with every key usable
    change ∀ n ∈ (sigalgs fun _ => true).map (·.name), _
    decide
  · change (sigalgs fun _ => true).length ≤ maxProposedAlgo
    decide

theorem sshciphers_proper : Kex.Proper sshciphers := proper_of_names (by decide) (by decide)

theorem sshhashes_proper : Kex.Proper sshhashes := proper_of_names (by decide) (by decide)

theorem compress_proper (compression : Bool) :
    Kex.Proper (if compression then sshCompress else sshNocompress) := by
  apply proper_of_names
  · cases compression <;> decide
  · cases compression <;> decide

theorem serverTables_proper (compression : Bool) (usable : SignatureType → Bool) :
    (serverTables compression usable).Proper where
  sshkex := sshkex_proper false
  sigalgs := sigalgs_proper usable
  sshciphers := sshciphers_proper
  sshhashes := sshhashes_proper
  compressC2s := compress_proper false
  compressS2c := compress_proper compression

theorem clientTables_proper (compression : Bool) (usable : SignatureType → Bool) :
    (clientTables compression usable).Proper where
  sshkex := sshkex_proper true
  sigalgs := sigalgs_proper usable
  sshciphers := sshciphers_proper
  sshhashes := sshhashes_proper
  compressC2s := compress_proper compression
  compressS2c := compress_proper compression

/-- What the other side reads in the message of a side. -/
def offerOf (t : Tables) (firstGuess : Bool) : Offer where
  kex := received t.sshkex
  hostkey := received t.sigalgs
  encC2s := received t.sshciphers
  encS2c := received t.sshciphers
  macC2s := received t.sshhashes
  macS2c := received t.sshhashes
  compC2s := received t.compressAlgosC2s
  compS2c := received t.compressAlgosS2c
  follows := firstGuess

theorem bufEatString_putString_nil (rest : Bytes) :
    bufEatString (putString [] ++ rest) = .ok rest := by
  rw [bufEatString, bufGetInt_putString]
  rfl

/-- The message is read to its end, and says what was put. -/
theorem readOffer_sendMsgKexinit {t : Tables} (h : t.Proper) {cookie : Bytes}
    (sixteen : cookie.length = 16) (firstGuess : Bool) :
    readOffer (sendMsgKexinit t cookie firstGuess).tail = .ok (offerOf t firstGuess, []) := by
  have skip (buf : Bytes) : bufIncrPos (cookie ++ buf) 16 = .ok buf := by
    have fits : ¬ (bufMaxIncr < 16 ∨ (cookie ++ buf).length < 16) := by
      rw [List.length_append, sixteen, bufMaxIncr]
      omega
    rw [bufIncrPos, if_neg fits, ← sixteen, List.drop_left]
  have last : bufGetInt (store32 0) = .ok (0, []) := bufGetInt_store32 0 []
  have flag : ((if firstGuess then 1 else 0 : UInt8) != 0) = firstGuess := by
    cases firstGuess <;> rfl
  simp only [readOffer, sendMsgKexinit, List.tail_cons, skip, ok_bind,
    readNames_putAlgolist h.sshkex, readNames_putAlgolist h.sigalgs,
    readNames_putAlgolist h.sshciphers, readNames_putAlgolist h.sshhashes,
    readNames_putAlgolist h.compressC2s, readNames_putAlgolist h.compressS2c,
    bufEatString_putString_nil, bufGetBool, bufGetByte, Except.map, last, flag]
  rfl

theorem readKexAlgos_sent {isServer guess : Bool} {t t' : Tables} {ses ses' : KexSes} (h : t'.Proper)
    (cookie : Bytes) (sixteen : cookie.length = 16) {firstGuess : Bool}
    (chosen : negotiate isServer t guess ses (offerOf t' firstGuess) = .ok ses') :
    readKexAlgos isServer t guess ses (sendMsgKexinit t' cookie firstGuess).tail =
      .ok (ses', []) :=
  readKexAlgos_ok.mpr ⟨_, readOffer_sendMsgKexinit h sixteen firstGuess, chosen⟩

section
variable {isServer guess : Bool} {t : Tables} {ses ses' : KexSes} {payload rest : Bytes}

/-- `read_kex_algos` on any bytes. The message is read field by field, a list being the names
between its commas. Every algorithm chosen is usable here and has the first of the client's names
that the server has; a cipher that authenticates brings its MAC. The next packet is to be ignored
if it follows and the guess was wrong, and strict key exchange is only ever agreed on in the first
one. -/
theorem kex_chosen (h : readKexAlgos isServer t guess ses payload = .ok (ses', rest)) :
    ∃ m o k, payload = Kexinit.bytes m ++ rest ∧ m.cookie.length = 16 ∧ o.Of m ∧
      readOffer payload = .ok (o, rest) ∧ ses'.newkeys = some k ∧ k.Chosen isServer t o ∧
      ses'.ignorenext = (ses.ignorenext || (o.follows && !goodGuess isServer t o)) ∧
      (goodGuess isServer t o = true ↔ o.RightGuess isServer t) ∧
      ses'.strictKex = (ses.strictKex || (!ses.donefirstkex &&
        o.kex.contains (if isServer then sshStrictKexC else sshStrictKexS))) := by
  obtain ⟨o, read, chosen⟩ := readKexAlgos_ok.mp h
  obtain ⟨m, whole, sixteen, names⟩ := readOffer_ok read
  obtain ⟨k, hk, rfl⟩ := negotiate_ok chosen
  exact ⟨m, o, k, whole, sixteen, names, read, rfl, hk, rfl, goodGuess_iff, rfl⟩

end

/-- The server that has only an RSA key, and the client's own list with a guess: it is the wrong
one, and its packet is to be ignored. -/
theorem kex_chosen_rsa : ∃ m o k ses',
    readKexAlgos true (serverTables true (· == .rsaSha256)) false {}
      (sendMsgKexinit (clientTables false fun _ => true) (List.replicate 16 7) true).tail =
        .ok (ses', []) ∧
    (sendMsgKexinit (clientTables false fun _ => true) (List.replicate 16 7) true).tail =
      Kexinit.bytes m ++ [] ∧ o.Of m ∧
    readOffer (sendMsgKexinit (clientTables false fun _ => true) (List.replicate 16 7) true).tail =
      .ok (o, []) ∧
    ses'.newkeys = some k ∧ k.Chosen true (serverTables true (· == .rsaSha256)) o ∧
    ses'.ignorenext = true ∧
    ses'.ignorenext = (o.follows && !goodGuess true (serverTables true (· == .rsaSha256)) o) ∧
    (goodGuess true (serverTables true (· == .rsaSha256)) o = true ↔
      o.RightGuess true (serverTables true (· == .rsaSha256))) := by
  obtain ⟨ses', chosen, ignored⟩ : ∃ ses', negotiate true (serverTables true (· == .rsaSha256))
      false {} (offerOf (clientTables false fun _ => true) true) = .ok ses' ∧
        ses'.ignorenext = true := ⟨_, rfl, rfl⟩
  have read := readKexAlgos_sent (clientTables_proper false _) (List.replicate 16 7)
    (List.length_replicate ..) chosen
  obtain ⟨m, o, k, whole, -, names, offer, keys, hk, ignore, right, -⟩ := kex_chosen read
  exact ⟨m, o, k, ses', read, whole, names, offer, keys, hk, ignored, ignore, right⟩

end Ikofi.Kex
