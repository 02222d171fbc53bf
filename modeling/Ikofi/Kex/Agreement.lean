import Ikofi.Lib.Both
import Ikofi.Kex.Chosen

/-!
# Both sides choose the same

The two messages cross. Each side reads the other's, and the sides end with the same
algorithms, the keys of one direction being for sending here and for receiving there;
or both give up, for the same reason.
-/

namespace Ikofi.Kex

open Wire Lib

/-- A name that both sides have stands for the same. -/
def Alike {δ : Type} (l l' : List (AlgoType δ)) : Prop :=
  ∀ a ∈ l, ∀ b ∈ l', a.name = b.name → a.data = b.data

structure Tables.Alike (t t' : Tables) : Prop where
  sshkex : Kex.Alike t.sshkex t'.sshkex
  sigalgs : Kex.Alike t.sigalgs t'.sigalgs
  sshciphers : Kex.Alike t.sshciphers t'.sshciphers
  sshhashes : Kex.Alike t.sshhashes t'.sshhashes
  compressC2s : Kex.Alike t.compressAlgosC2s t'.compressAlgosC2s
  compressS2c : Kex.Alike t.compressAlgosS2c t'.compressAlgosS2c

theorem compress_alike (compression compression' : Bool) :
    Kex.Alike (if compression then sshCompress else sshNocompress)
      (if compression' then sshCompress else sshNocompress) := by
  have unique : ∀ a ∈ sshCompress, ∀ b ∈ sshCompress, a.name = b.name → a.data = b.data := by
    decide
  have part (c : Bool) : (if c then sshCompress else sshNocompress) ⊆ sshCompress := by
    cases c <;> decide
  exact fun a ha b hb => unique a (part _ ha) b (part _ hb)

theorem sigalgs_alike (usable usable' : SignatureType → Bool) :
    Kex.Alike (sigalgs usable) (sigalgs usable') := by
  intro a ha b hb same
  have entry {f : SignatureType → Bool} {c : AlgoType SignatureType} (hc : c ∈ sigalgs f) :
      (c.name, c.data) ∈ (sigalgs fun _ => true).map fun d => (d.name, d.data) :=
    List.mem_map_of_mem (f := fun d => (d.name, d.data)) hc
  have unique : ∀ x ∈ (sigalgs fun _ => true).map fun d => (d.name, d.data),
      ∀ y ∈ (sigalgs fun _ => true).map fun d => (d.name, d.data), x.1 = y.1 → x.2 = y.2 := by
    decide
  exact unique _ (entry ha) _ (entry hb) same

/-- Two builds of the code, whatever keys they have and whether they compress. -/
theorem serverTables_alike_clientTables (compression compression' : Bool)
    (usable usable' : SignatureType → Bool) :
    (serverTables compression usable).Alike (clientTables compression' usable') where
  sshkex := by
    change ∀ a ∈ sshkex false, ∀ b ∈ sshkex true, a.name = b.name → a.data = b.data
    decide
  sigalgs := sigalgs_alike usable usable'
  sshciphers := by
    change ∀ a ∈ sshciphers, ∀ b ∈ sshciphers, a.name = b.name → a.data = b.data
    decide
  sshhashes := by
    change ∀ a ∈ sshhashes, ∀ b ∈ sshhashes, a.name = b.name → a.data = b.data
    decide
  compressC2s := compress_alike false compression'
  compressS2c := compress_alike compression compression'

section
variable {δ : Type} {srv cli : List (AlgoType δ)}

/-- In one list both sides find entries that stand for the same, or none. -/
theorem matchAlgo_both (hs : Kex.Proper srv) (hc : Kex.Proper cli) (same : Kex.Alike srv cli)
    (g g' : Bool) :
    (matchAlgo true srv g (received cli)).1.map (·.data) =
      (matchAlgo false cli g' (received srv)).1.map (·.data) := by
  have agree : pickedOf true srv (received cli) = pickedOf false cli (received srv) :=
    picked_received hs hc
  obtain ⟨a, found, member, -, first⟩ | ⟨found, first⟩ :=
    matchAlgo_picked true srv g (received cli)
  · obtain ⟨b, found', member', -, first'⟩ | ⟨-, first'⟩ :=
      matchAlgo_picked false cli g' (received srv)
    · rw [first, first'] at agree
      rw [found, found', Option.map_some, Option.map_some,
        same a member b member' (Option.some.inj agree)]
    · rw [first, first'] at agree
      cases agree
  · rcases matchAlgo_picked false cli g' (received srv) with ⟨b, -, -, -, first'⟩ | ⟨found', -⟩
    · rw [first, first'] at agree
      cases agree
    · rw [found, found', Option.map_none]

theorem orNoMatching_both {α β γ : Type} {x : Option α} {y : Option β} {f : α → γ} {g : β → γ}
    (erralgo : String) (h : x.map f = y.map g) :
    Both (fun a b => f a = g b) (orNoMatching erralgo x) (orNoMatching erralgo y) := by
  cases x with
  | none =>
    cases y with
    | none => exact .error _
    | some b => cases h
  | some a =>
    cases y with
    | none => cases h
    | some b => exact .ok (Option.some.inj h)

end

/-- The same keys, the directions exchanged. -/
def Newkeys.swap (k : Newkeys) : Newkeys := { k with recv := k.trans, trans := k.recv }

theorem Newkeys.of_swap (kex : DropbearKex) (sig : SignatureType)
    (c2s s2c : KeyContextDirectional) :
    Newkeys.of true kex sig c2s s2c = (Newkeys.of false kex sig c2s s2c).swap := rfl

section
variable {srv cli : Tables}

theorem negotiate_both (hs : srv.Proper) (hc : cli.Proper) (same : srv.Alike cli)
    (gs gc fs fc : Bool) (ss cs : KexSes) :
    Both (fun s c => ∃ k, c.newkeys = some k ∧ s.newkeys = some k.swap)
      (negotiate true srv gs ss (offerOf cli fc)) (negotiate false cli gc cs (offerOf srv fs)) := by
  have kex (g g' : Bool) :
      (matchAlgo true srv.sshkex g (received cli.sshkex)).1.bind (·.data) =
        (matchAlgo false cli.sshkex g' (received srv.sshkex)).1.bind (·.data) := by
    have found := matchAlgo_both hs.sshkex hc.sshkex same.sshkex g g'
    have join {x : Option (AlgoType (Option DropbearKex))} :
        x.bind (·.data) = (x.map (·.data)).join := by
      cases x <;> rfl
    rw [join, join, found]
  have mac {c c' : AlgoType Cipher} (h : c.data = c'.data) :
      macOr c.data (matchAlgo true srv.sshhashes false (received cli.sshhashes)).1 =
        macOr c'.data (matchAlgo false cli.sshhashes false (received srv.sshhashes)).1 := by
    rw [h, macOr, macOr, matchAlgo_both hs.sshhashes hc.sshhashes same.sshhashes false false]
  have cipher := matchAlgo_both hs.sshciphers hc.sshciphers same.sshciphers false false
  unfold negotiate
  apply (orNoMatching_both (f := id) (g := id) "kex" (by rw [offerOf, offerOf, kex])).bind
  intro k k' hk
  apply (orNoMatching_both "hostkey"
    (matchAlgo_both hs.sigalgs hc.sigalgs same.sigalgs _ _)).bind
  intro s s' hsig
  apply (orNoMatching_both "enc c->s" cipher).bind
  intro e e' he
  apply (orNoMatching_both "enc s->c" cipher).bind
  intro f f' hf
  apply (orNoMatching_both (f := id) (g := id) "mac c->s" (congrArg _ (mac he))).bind
  intro m m' hm
  apply (orNoMatching_both (f := id) (g := id) "mac s->c" (congrArg _ (mac hf))).bind
  intro n n' hn
  apply (orNoMatching_both "comp c->s"
    (matchAlgo_both hs.compressC2s hc.compressC2s same.compressC2s false false)).bind
  intro z z' hz
  apply (orNoMatching_both "comp s->c"
    (matchAlgo_both hs.compressS2c hc.compressS2c same.compressS2c false false)).bind
  intro y y' hy
  apply Both.ok
  simp only [id] at hk hm hn
  refine ⟨_, rfl, ?_⟩
  simp only [KexSes.settle, hk, hsig, he, hf, hm, hn, hz, hy, Newkeys.of_swap]

/-- The two messages cross, and each side reads the other's to its end. Both settle
on the same algorithms, or both exit with the same message. -/
theorem same_algorithms (hs : srv.Proper) (hc : cli.Proper) (same : srv.Alike cli)
    {cookie cookie' : Bytes} (sixteen : cookie.length = 16) (sixteen' : cookie'.length = 16)
    (gs gc : Bool) (ss cs : KexSes) :
    Both (fun s c => s.2 = [] ∧ c.2 = [] ∧ ∃ k, c.1.newkeys = some k ∧ s.1.newkeys = some k.swap)
      (readKexAlgos true srv gs ss (sendMsgKexinit cli cookie gc).tail)
      (readKexAlgos false cli gc cs (sendMsgKexinit srv cookie' gs).tail) := by
  rw [readKexAlgos_of_readOffer (readOffer_sendMsgKexinit hc sixteen gc),
    readKexAlgos_of_readOffer (readOffer_sendMsgKexinit hs sixteen' gs)]
  apply (negotiate_both hs hc same gs gc gs gc ss cs).map
  exact fun s c keys => ⟨rfl, rfl, keys⟩

/-- The two halves of the code with the server's compression on and the client's off. -/
theorem same_algorithms_tables :
    Both (fun s c => s.2 = [] ∧ c.2 = [] ∧ ∃ k, c.1.newkeys = some k ∧ s.1.newkeys = some k.swap)
      (readKexAlgos true (serverTables true (· == .rsaSha256)) false {}
        (sendMsgKexinit (clientTables false fun _ => true) (List.replicate 16 7) true).tail)
      (readKexAlgos false (clientTables false fun _ => true) true {}
        (sendMsgKexinit (serverTables true (· == .rsaSha256)) (List.replicate 16 9) false).tail) :=
  same_algorithms (serverTables_proper true _) (clientTables_proper false _)
    (serverTables_alike_clientTables true false _ _) (List.length_replicate ..)
    (List.length_replicate ..) false true {} {}

end

/-! ## The guess -/

/-- The first name offered is the first of the table. -/
def FirstUsable {δ : Type} (l : List (AlgoType δ)) : Prop := ∃ a ∈ l.head?, a.usable = true

section
variable {δ : Type} {srv cli : List (AlgoType δ)}

theorem FirstUsable.head {l : List (AlgoType δ)} (h : FirstUsable l) :
    ∃ n, (offered l).head? = some n ∧ (localNames l).head? = some (some n) ∧
      (received l).head? = some n := by
  obtain ⟨a, first, usable⟩ := h
  obtain ⟨rest, rfl⟩ := List.head?_eq_some_iff.mp first
  have put : offered (a :: rest) = a.name :: offered rest := by
    rw [offered, List.filter_cons_of_pos usable, List.map_cons, offered]
  refine ⟨a.name, ?_, ?_, ?_⟩
  · rw [put, List.head?_cons]
  · rw [localNames, List.map_cons, if_pos usable, List.head?_cons]
  · rw [received, put, if_neg (List.cons_ne_nil _ _), List.head?_cons]

theorem some_mem_localNames {l : List (AlgoType δ)} {n : Bytes} :
    some n ∈ localNames l ↔ n ∈ offered l := by
  rw [← filterMap_localNames, mem_filterMap_id]

/-- Both sides judge a guess alike if it is the first entry of the client's table,
and by the old rule if the server offers the first of its own. -/
theorem goodguess_both (hc : Kex.Proper cli) (lead : FirstUsable cli) {g : Bool}
    (lead' : g = false → FirstUsable srv) :
    (matchAlgo true srv g (received cli)).2 = (matchAlgo false cli g (received srv)).2 := by
  obtain ⟨n, atOffered, atLocal, atReceived⟩ := lead.head
  have put : n ∈ offered cli := List.mem_of_head? atOffered
  have first : ((received cli).map some).head? = some (some n) := by
    rw [List.head?_map, atReceived, Option.map_some]
  rw [Bool.eq_iff_iff, matchAlgo_goodguess, matchAlgo_goodguess]
  simp only [Leads, sides, if_true, Bool.false_eq_true, if_false, first, atLocal, Option.some.injEq,
    exists_eq_left']
  cases g with
  | true =>
    simp only [if_true]
    rw [some_mem_localNames, ← mem_received (hc.filled n put)]
    simp
  | false =>
    obtain ⟨m, -, atLocal', atReceived'⟩ := (lead' rfl).head
    simp only [Bool.false_eq_true, if_false]
    rw [atLocal', List.head?_map, atReceived', Option.map_some]

/-- The client's first name is one that the server offers, by the older rule its first. -/
def Guessed {δ' : Type} (kexguess2 : Prop) (srv : List (AlgoType δ)) (cli : List (AlgoType δ')) :
    Prop :=
  ∃ n, (offered cli).head? = some n ∧ (kexguess2 → n ∈ offered srv) ∧
    (¬ kexguess2 → (offered srv).head? = some n)

/-- That is how the client judges its guess. -/
theorem goodguess_guessed (hc : Kex.Proper cli) (lead : FirstUsable cli) {g : Bool} :
    (matchAlgo false cli g (received srv)).2 = true ↔ Guessed (g = true) srv cli := by
  obtain ⟨n, atOffered, atLocal, -⟩ := lead.head
  have filled : n ≠ [] := hc.filled n (List.mem_of_head? atOffered)
  rw [matchAlgo_goodguess]
  simp only [Leads, Guessed, sides, Bool.false_eq_true, if_false, atLocal, atOffered,
    Option.some.injEq, exists_eq_left']
  cases g with
  | true =>
    rw [if_pos rfl, ← mem_received filled]
    simp
  | false =>
    rw [if_neg Bool.false_ne_true, List.head?_map, received]
    by_cases none : offered srv = []
    · simp [none, Ne.symm filled]
    · simp [none]

end

section
variable {srv cli : Tables}

theorem contains_received {δ : Type} {l : List (AlgoType δ)} :
    (received l).contains kexguess2AlgoName = true ↔ kexguess2AlgoName ∈ offered l := by
  rw [List.contains_iff_mem]
  exact mem_received (by decide)

/-- The client's guess, by the rule that both sides ask for. -/
structure RightGuess (srv cli : Tables) : Prop where
  kex : Guessed (kexguess2AlgoName ∈ offered srv.sshkex) srv.sshkex cli.sshkex
  hostkey : Guessed (kexguess2AlgoName ∈ offered srv.sshkex) srv.sigalgs cli.sigalgs

/-- The client judges by the rule that the server asks for. -/
theorem goodGuess_rightGuess (hc : cli.Proper)
    (lead : FirstUsable cli.sshkex ∧ FirstUsable cli.sigalgs) {gs : Bool} :
    goodGuess false cli (offerOf srv gs) = true ↔ RightGuess srv cli := by
  have rule : ((received srv.sshkex).contains kexguess2AlgoName = true) =
      (kexguess2AlgoName ∈ offered srv.sshkex) := propext contains_received
  rw [goodGuess, Bool.and_eq_true, offerOf, goodguess_guessed hc.sshkex lead.1,
    goodguess_guessed hc.sigalgs lead.2, rule]
  exact ⟨fun h => ⟨h.1, h.2⟩, fun h => ⟨h.kex, h.hostkey⟩⟩

/-- The server ignores the client's next packet exactly if the client takes its guess for wrong,
when both sides judge by the same rule and the entries that are guessed are the first ones of
their tables. The guess is right by `kexguess2` if the server offers the client's first names,
and by the older rule if these are its own first. -/
theorem guess_settled (hs : srv.Proper) (hc : cli.Proper)
    (rule : kexguess2AlgoName ∈ offered srv.sshkex ↔ kexguess2AlgoName ∈ offered cli.sshkex)
    (lead : FirstUsable cli.sshkex ∧ FirstUsable cli.sigalgs)
    (lead' : kexguess2AlgoName ∉ offered srv.sshkex →
      FirstUsable srv.sshkex ∧ FirstUsable srv.sigalgs)
    {cookie cookie' : Bytes} (sixteen : cookie.length = 16) (sixteen' : cookie'.length = 16)
    {gs gc : Bool} {ss ss' cs cs' : KexSes} {r r' : Bytes}
    (started : ss.ignorenext = false ∧ cs.ourFirstFollowsMatches = false)
    (read : readKexAlgos true srv gs ss (sendMsgKexinit cli cookie gc).tail = .ok (ss', r))
    (read' : readKexAlgos false cli gc cs (sendMsgKexinit srv cookie' gs).tail = .ok (cs', r')) :
    ss'.ignorenext = (gc && !cs'.ourFirstFollowsMatches) ∧
      (cs'.ourFirstFollowsMatches = true ↔ gc = true ∧ RightGuess srv cli) := by
  obtain ⟨o, offer, chosen⟩ := readKexAlgos_ok.mp read
  rw [readOffer_sendMsgKexinit hc sixteen gc] at offer
  cases offer
  obtain ⟨o', offer', chosen'⟩ := readKexAlgos_ok.mp read'
  rw [readOffer_sendMsgKexinit hs sixteen' gs] at offer'
  cases offer'
  obtain ⟨k, -, rfl⟩ := negotiate_ok chosen
  obtain ⟨k', -, rfl⟩ := negotiate_ok chosen'
  have same : goodGuess true srv (offerOf cli gc) = goodGuess false cli (offerOf srv gs) := by
    have g : (received srv.sshkex).contains kexguess2AlgoName =
        (received cli.sshkex).contains kexguess2AlgoName := by
      rw [Bool.eq_iff_iff, contains_received, contains_received, rule]
    have old (h : (received cli.sshkex).contains kexguess2AlgoName = false) :
        kexguess2AlgoName ∉ offered srv.sshkex := by
      rw [rule, ← contains_received, h]
      exact Bool.false_ne_true
    simp only [goodGuess, offerOf, g]
    rw [goodguess_both hc.sshkex lead.1 (fun h => (lead' (old h)).1),
      goodguess_both hc.sigalgs lead.2 (fun h => (lead' (old h)).2)]
  constructor
  · simp only [KexSes.settle, started.1, started.2, Bool.false_or, same]
    rw [offerOf]
    cases gc <;> rfl
  · rw [KexSes.settle, started.2, Bool.false_or, Bool.and_eq_true,
      goodGuess_rightGuess hc lead]

/-- A wrong guess: the server has no key of the first kind. -/
theorem guess_settled_wrong : ∃ ss' cs',
    readKexAlgos true (serverTables true (· == .rsaSha256)) false {}
      (sendMsgKexinit (clientTables false fun _ => true) (List.replicate 16 7) true).tail =
        .ok (ss', []) ∧
    readKexAlgos false (clientTables false fun _ => true) true {}
      (sendMsgKexinit (serverTables true (· == .rsaSha256)) (List.replicate 16 9) false).tail =
        .ok (cs', []) ∧
    ss'.ignorenext = true ∧ ss'.ignorenext = (true && !cs'.ourFirstFollowsMatches) ∧
    (cs'.ourFirstFollowsMatches = true ↔ true = true ∧
      RightGuess (serverTables true (· == .rsaSha256)) (clientTables false fun _ => true)) := by
  have sixteen (b : UInt8) : (List.replicate 16 b).length = 16 := List.length_replicate
  obtain ⟨ss', chosen, ignored⟩ : ∃ s, negotiate true (serverTables true (· == .rsaSha256)) false {}
      (offerOf (clientTables false fun _ => true) true) = .ok s ∧ s.ignorenext = true :=
    ⟨_, rfl, rfl⟩
  obtain ⟨cs', chosen'⟩ : ∃ c, negotiate false (clientTables false fun _ => true) true {}
      (offerOf (serverTables true (· == .rsaSha256)) false) = .ok c := ⟨_, rfl⟩
  have read := readKexAlgos_sent (clientTables_proper false _) _ (sixteen 7) chosen
  have read' := readKexAlgos_sent (serverTables_proper true _) _ (sixteen 9) chosen'
  refine ⟨ss', cs', read, read', ignored, ?_⟩
  have rule : kexguess2AlgoName ∈ offered (sshkex false) ∧
      kexguess2AlgoName ∈ offered (sshkex true) := by
    decide
  exact guess_settled (serverTables_proper true _) (clientTables_proper false _)
    ⟨fun _ => rule.2, fun _ => rule.1⟩ ⟨⟨_, rfl, rfl⟩, ⟨_, rfl, rfl⟩⟩ (fun old => absurd rule.1 old)
    (sixteen 7) (sixteen 9) ⟨rfl, rfl⟩ read read'

end

end Ikofi.Kex
