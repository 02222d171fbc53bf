import Ikofi.Keys.Login
import Ikofi.Options.Model

/-!
# The options of a key

`svr_parse_pubkey_options`: the options in front of a key in `authorized_keys`, with commas
between them, and the texts that it accepts.
-/

namespace Ikofi.Keys

/-- The fields that this build has; agents and X11 are not forwarded in it. -/
structure PubKeyOptions where
  noPortForwarding : Bool := false
  noPty : Bool := false
  forcedCommand : Option Bytes := none
  permitOpenDestinations : Option (List (Bytes × Nat)) := none
  permitListens : Option (List Nat) := none
  noTouchRequired : Bool := false
  verifyRequired : Bool := false

def lower (c : UInt8) : UInt8 := if 65 ≤ c && c ≤ 90 then c + 32 else c

def matchOption (name s : Bytes) : Option Bytes :=
  if s.length < name.length then none
  else if (s.take name.length).map lower = name.map lower then some (s.drop name.length)
  else none

def uintMax : Nat := 0xFFFFFFFF

/-- `ULONG_MAX + 1` -/
def ulongEnd : Nat := 0x10000000000000000

def isSpace (c : UInt8) : Bool := c == 32 || (9 ≤ c && c ≤ 13)

def isDigit (c : UInt8) : Bool := 48 ≤ c && c ≤ 57

/-- `m_str_to_uint`: `strtoul` of 64 bits, which takes blanks and a sign. -/
def mStrToUint (s : Bytes) : Option Nat :=
  let t := s.dropWhile isSpace
  let negative := t.headD 0 == 45
  let d := if negative || t.headD 0 == 43 then t.drop 1 else t
  if d.isEmpty || !d.all isDigit then none
  else
    let v := d.foldl (fun n c => 10 * n + (c.toNat - 48)) 0
    let l := if negative && v < ulongEnd then (ulongEnd - v) % ulongEnd else v
    if uintMax < l then none else some l

/-- The text up to the quote that closes it, and what stands behind that. In a command a
backslash escapes what follows it. -/
def untilQuote (escapes escaped : Bool) : Bytes → Option (Bytes × Bytes)
  | [] => none
  | c :: text =>
    if !escaped && c == 34 then some ([], text)
    else (untilQuote escapes (escapes && !escaped && c == 92) text).map fun x => (c :: x.1, x.2)

/-- What `permitopen` makes of its text. -/
def openEntry (spec : Bytes) : Option (Bytes × Nat) :=
  match Ikofi.Options.splitAddressPort spec with
  | some (some host, some portstring) =>
    if portstring = [42] then some (host, uintMax)
    else (mStrToUint portstring).map fun port => (host, port)
  | _ => none

inductive Kind
  | flag (set : PubKeyOptions → PubKeyOptions)
  | command
  | permitopen
  | permitlisten

/-- The options in the order in which they are tried. -/
def kinds : List (Bytes × Kind) :=
  [(lit "no-port-forwarding", .flag fun o => { o with noPortForwarding := true }),
    (lit "no-agent-forwarding", .flag id),
    (lit "no-X11-forwarding", .flag id),
    (lit "no-pty", .flag fun o => { o with noPty := true }),
    (lit "restrict", .flag fun o => { o with noPortForwarding := true, noPty := true }),
    (lit "command=\"", .command),
    (lit "permitopen=\"", .permitopen),
    (lit "permitlisten=\"", .permitlisten),
    (lit "no-touch-required", .flag fun o => { o with noTouchRequired := true }),
    (lit "verify-required", .flag fun o => { o with verifyRequired := true })]

/-- What follows the name of an option; `none` is `bad_option`. -/
def Kind.parse (o : PubKeyOptions) (text : Bytes) : Kind → Option (PubKeyOptions × Bytes)
  | .flag set => some (set o, text)
  | .command =>
    if o.forcedCommand.isSome then none
    else (untilQuote true false text).map fun x => ({ o with forcedCommand := some x.1 }, x.2)
  | .permitopen =>
    (untilQuote false false text).bind fun x => (openEntry x.1).map fun entry =>
      ({ o with
        permitOpenDestinations := some (o.permitOpenDestinations.getD [] ++ [entry]) }, x.2)
  | .permitlisten =>
    (untilQuote false false text).bind fun x => (mStrToUint x.1).map fun port =>
      ({ o with permitListens := some (o.permitListens.getD [] ++ [port]) }, x.2)

/-- The option that the text starts with, if any. -/
def findKind (s : Bytes) : Option (Kind × Bytes) :=
  kinds.findSome? fun x => (matchOption x.1 s).map fun rest => (x.2, rest)

/-- One turn of the loop, as far as `next_option`. -/
def parseOption (o : PubKeyOptions) (s : Bytes) : Option (PubKeyOptions × Bytes) :=
  match findKind s with
  | none => some (o, s)
  | some (kind, rest) => kind.parse o rest

/-- The loop, for so many turns: nothing where there is more to read, and `some none` is
`bad_option`. -/
def parseFrom : Nat → PubKeyOptions → Bytes → Option (Option PubKeyOptions)
  | _, o, [] => some (some o)
  | 0, _, _ :: _ => none
  | fuel + 1, o, c :: s =>
    match parseOption o (c :: s) with
    | none => some none
    | some (o', []) => some (some o')
    | some (o', b :: rest) => if b == 44 then parseFrom fuel o' rest else some none

/-- `svr_parse_pubkey_options`; `none` is a line without options. A turn for each byte is
enough (`parseFrom_ends`). -/
def svrParsePubkeyOptions : Option Bytes → Option PubKeyOptions
  | none => some {}
  | some s => (parseFrom s.length {} s).join

/-! ## What one option reads -/

/-- A text that may stand between quotes: no quote in it closes it, and the quote behind it
does. -/
def closes (escapes escaped : Bool) : Bytes → Bool
  | [] => !escaped
  | c :: text => (escaped || c != 34) && closes escapes (escapes && !escaped && c == 92) text

/-- The texts that may follow the name of an option, and what they set. -/
inductive Kind.Reads (o : PubKeyOptions) : Kind → Bytes → PubKeyOptions → Prop
  | flag {set : PubKeyOptions → PubKeyOptions} : Kind.Reads o (.flag set) [] (set o)
  | command {command : Bytes} : o.forcedCommand = none → closes true false command = true →
      Kind.Reads o .command (command ++ [34]) { o with forcedCommand := some command }
  | permitopen {spec : Bytes} {entry : Bytes × Nat} : closes false false spec = true →
      openEntry spec = some entry → Kind.Reads o .permitopen (spec ++ [34]) { o with
        permitOpenDestinations := some (o.permitOpenDestinations.getD [] ++ [entry]) }
  | permitlisten {spec : Bytes} {port : Nat} : closes false false spec = true →
      mStrToUint spec = some port → Kind.Reads o .permitlisten (spec ++ [34]) { o with
        permitListens := some (o.permitListens.getD [] ++ [port]) }

theorem untilQuote_some {escapes escaped : Bool} {text inner rest : Bytes}
    (h : untilQuote escapes escaped text = some (inner, rest)) :
    text = inner ++ 34 :: rest ∧ closes escapes escaped inner = true := by
  induction text generalizing escaped inner with
  | nil => cases h
  | cons c text ih =>
    rw [untilQuote] at h
    by_cases ends : (!escaped && c == 34) = true
    · rw [if_pos ends] at h
      cases h
      simp only [Bool.and_eq_true, beq_iff_eq] at ends
      exact ⟨by rw [ends.2]; rfl, ends.1⟩
    · rw [if_neg ends] at h
      obtain ⟨⟨more, rest'⟩, found, same⟩ := Option.map_eq_some_iff.mp h
      cases same
      obtain ⟨rfl, inside⟩ := ih found
      refine ⟨rfl, ?_⟩
      rw [closes, inside, Bool.and_true]
      cases escaped <;> simp_all

theorem untilQuote_append {escapes escaped : Bool} {inner : Bytes} (rest : Bytes)
    (h : closes escapes escaped inner = true) :
    untilQuote escapes escaped (inner ++ 34 :: rest) = some (inner, rest) := by
  induction inner generalizing escaped with
  | nil =>
    rw [List.nil_append, untilQuote, if_pos]
    simpa [closes] using h
  | cons c inner ih =>
    rw [closes, Bool.and_eq_true] at h
    rw [List.cons_append, untilQuote, if_neg, ih h.2]
    · rfl
    · cases escaped <;> simp_all

/-- An option reads the text behind its name as far as it goes, whatever follows. -/
theorem Kind.parse_iff {kind : Kind} {o o' : PubKeyOptions} {t rest : Bytes} :
    kind.parse o t = some (o', rest) ↔ ∃ text, t = text ++ rest ∧ kind.Reads o text o' := by
  constructor
  · intro h
    cases kind with
    | flag set =>
      cases h
      exact ⟨[], rfl, .flag⟩
    | command =>
      rw [Kind.parse] at h
      cases given : o.forcedCommand with
      | some command => simp [given] at h
      | none =>
        rw [given, if_neg (by decide)] at h
        obtain ⟨⟨command, rest'⟩, found, same⟩ := Option.map_eq_some_iff.mp h
        cases same
        obtain ⟨rfl, inside⟩ := untilQuote_some found
        exact ⟨command ++ [34], by simp, .command given inside⟩
    | permitopen =>
      obtain ⟨⟨spec, rest'⟩, found, h⟩ := Option.bind_eq_some_iff.mp h
      obtain ⟨entry, valid, same⟩ := Option.map_eq_some_iff.mp h
      cases same
      obtain ⟨rfl, inside⟩ := untilQuote_some found
      exact ⟨spec ++ [34], by simp, .permitopen inside valid⟩
    | permitlisten =>
      obtain ⟨⟨spec, rest'⟩, found, h⟩ := Option.bind_eq_some_iff.mp h
      obtain ⟨port, valid, same⟩ := Option.map_eq_some_iff.mp h
      cases same
      obtain ⟨rfl, inside⟩ := untilQuote_some found
      exact ⟨spec ++ [34], by simp, .permitlisten inside valid⟩
  · rintro ⟨text, rfl, reads⟩
    cases reads with
    | flag => rfl
    | command given inside =>
      rw [List.append_assoc, List.singleton_append, Kind.parse, given, if_neg (by decide),
        untilQuote_append rest inside]
      rfl
    | permitopen inside valid =>
      rw [List.append_assoc, List.singleton_append, Kind.parse, untilQuote_append rest inside,
        Option.bind_some, valid]
      rfl
    | permitlisten inside valid =>
      rw [List.append_assoc, List.singleton_append, Kind.parse, untilQuote_append rest inside,
        Option.bind_some, valid]
      rfl

/-! ## Which option it is -/

theorem matchOption_iff {name s rest : Bytes} :
    matchOption name s = some rest ↔
      ∃ word, s = word ++ rest ∧ word.map lower = name.map lower := by
  unfold matchOption
  constructor
  · intro h
    by_cases short : s.length < name.length
    · rw [if_pos short] at h
      cases h
    rw [if_neg short] at h
    by_cases same : (s.take name.length).map lower = name.map lower
    · rw [if_pos same] at h
      cases h
      exact ⟨s.take name.length, (List.take_append_drop _ _).symm, same⟩
    · rw [if_neg same] at h
      cases h
  · rintro ⟨word, rfl, same⟩
    have length : word.length = name.length := by
      rw [← List.length_map (f := lower), same, List.length_map]
    rw [if_neg (by rw [List.length_append]; omega), ← length, List.take_left, if_pos same,
      List.drop_left]

/-- No name is the start of another, in any case, so that the order of the options is of no
matter. -/
theorem names_apart : kinds.Pairwise fun x y =>
    ¬ x.1.map lower <+: y.1.map lower ∧ ¬ y.1.map lower <+: x.1.map lower := by
  have table : (kinds.map fun x => x.1.map lower).Pairwise fun a b =>
      a.isPrefixOf b = false ∧ b.isPrefixOf a = false := by
    decide +kernel
  rw [List.pairwise_map] at table
  refine table.imp fun h => ?_
  rw [← List.isPrefixOf_iff_prefix, ← List.isPrefixOf_iff_prefix, h.1, h.2]
  decide

/-- Every name starts with a byte that is not a comma. -/
theorem name_starts {name : Bytes} {kind : Kind} (h : (name, kind) ∈ kinds) :
    ∃ c rest, name.map lower = c :: rest ∧ c ≠ 44 := by
  have table : (kinds.all fun x => (x.1.map lower).headD 44 != 44) = true := by decide +kernel
  have first := List.all_eq_true.mp table _ h
  dsimp only at first
  cases start : name.map lower with
  | nil =>
    rw [start] at first
    cases first
  | cons c rest =>
    rw [start] at first
    exact ⟨c, rest, rfl, by simpa using first⟩

theorem findKind_iff {s rest : Bytes} {kind : Kind} :
    findKind s = some (kind, rest) ↔ ∃ name word, (name, kind) ∈ kinds ∧
      s = word ++ rest ∧ word.map lower = name.map lower := by
  unfold findKind
  rw [List.findSome?_eq_some_iff]
  constructor
  · rintro ⟨before, ⟨name, kind'⟩, after, parts, found, -⟩
    obtain ⟨rest', found, same⟩ := Option.map_eq_some_iff.mp found
    cases same
    obtain ⟨word, cut, same⟩ := matchOption_iff.mp found
    exact ⟨name, word, by simp [parts], cut, same⟩
  · rintro ⟨name, word, member, rfl, same⟩
    obtain ⟨before, after, parts⟩ := List.append_of_mem member
    refine ⟨before, (name, kind), after, parts, ?_, ?_⟩
    · rw [matchOption_iff.mpr ⟨word, rfl, same⟩]
      rfl
    · intro x hx
      have apart := names_apart
      rw [parts, List.pairwise_append] at apart
      obtain ⟨later, earlier⟩ := apart.2.2 x hx _ List.mem_cons_self
      cases found : matchOption x.1 (word ++ rest) with
      | none => rfl
      | some rest' =>
        -- both names would be starts of the text
        obtain ⟨word', cut, same'⟩ := matchOption_iff.mp found
        have one : name.map lower <+: (word ++ rest).map lower := by
          rw [List.map_append, same]
          exact List.prefix_append _ _
        have other : x.1.map lower <+: (word ++ rest).map lower := by
          rw [cut, List.map_append, same']
          exact List.prefix_append _ _
        rcases List.prefix_or_prefix_of_prefix one other with h | h
        · exact absurd h earlier
        · exact absurd h later

theorem findKind_comma (s : Bytes) : findKind (44 :: s) = none := by
  cases found : findKind (44 :: s) with
  | none => rfl
  | some x =>
    obtain ⟨name, word, member, cut, same⟩ := findKind_iff.mp found
    obtain ⟨c, rest, starts, other⟩ := name_starts member
    cases word with
    | nil =>
      rw [starts] at same
      cases same
    | cons d word =>
      rw [starts, List.map_cons] at same
      rw [List.cons_append] at cut
      obtain ⟨rfl, -⟩ := List.cons_eq_cons.mp cut
      obtain ⟨rfl, -⟩ := List.cons_eq_cons.mp same
      exact absurd (by decide) other

/-! ## The texts that are accepted -/

/-- What may stand between two commas: nothing, or one option. -/
inductive Piece (o : PubKeyOptions) : Bytes → PubKeyOptions → Prop
  | empty : Piece o [] o
  | option {name word text : Bytes} {kind : Kind} {o' : PubKeyOptions} : (name, kind) ∈ kinds →
      word.map lower = name.map lower → kind.Reads o text o' → Piece o (word ++ text) o'

/-- Pieces with commas between them. -/
inductive Pieces : PubKeyOptions → Bytes → PubKeyOptions → Prop
  | last {o o' : PubKeyOptions} {p : Bytes} : Piece o p o' → Pieces o p o'
  | more {o o' o'' : PubKeyOptions} {p s : Bytes} : Piece o p o' → Pieces o' s o'' →
      Pieces o (p ++ 44 :: s) o''

theorem parseOption_piece {o o' : PubKeyOptions} {s rest : Bytes}
    (h : parseOption o s = some (o', rest)) : ∃ p, s = p ++ rest ∧ Piece o p o' := by
  rw [parseOption] at h
  cases which : findKind s with
  | none =>
    rw [which] at h
    cases h
    exact ⟨[], rfl, .empty⟩
  | some x =>
    obtain ⟨kind, text⟩ := x
    rw [which] at h
    obtain ⟨name, word, member, rfl, same⟩ := findKind_iff.mp which
    obtain ⟨read, rfl, reads⟩ := Kind.parse_iff.mp h
    exact ⟨word ++ read, (List.append_assoc _ _ _).symm, .option member same reads⟩

/-- A piece is read up to what follows it, be it the end or a comma. -/
theorem Piece.parseOption {o o' : PubKeyOptions} {p rest : Bytes} (h : Piece o p o')
    (next : p ≠ [] ∨ ∃ s, rest = 44 :: s) : Keys.parseOption o (p ++ rest) = some (o', rest) := by
  rw [Keys.parseOption]
  cases h with
  | empty =>
    obtain ⟨s, rfl⟩ := next.resolve_left (fun filled => filled rfl)
    rw [List.nil_append, findKind_comma]
  | @option name word text kind _ member same reads =>
    rw [List.append_assoc, findKind_iff.mpr ⟨name, word, member, rfl, same⟩]
    exact Kind.parse_iff.mpr ⟨text, rfl, reads⟩

/-- Every turn that goes on has read a comma, so that the loop ends. -/
theorem parseFrom_ends {fuel : Nat} {s : Bytes} (o : PubKeyOptions) (enough : s.length ≤ fuel) :
    ∃ read, parseFrom fuel o s = some read := by
  induction fuel generalizing o s with
  | zero =>
    rw [List.length_eq_zero_iff.mp (Nat.le_zero.mp enough)]
    exact ⟨some o, rfl⟩
  | succ fuel ih =>
    cases s with
    | nil => exact ⟨some o, rfl⟩
    | cons c s =>
      rw [parseFrom]
      cases parsed : parseOption o (c :: s) with
      | none => exact ⟨none, rfl⟩
      | some x =>
        obtain ⟨o', rest⟩ := x
        cases rest with
        | nil => exact ⟨some o', rfl⟩
        | cons b rest =>
          dsimp only
          by_cases comma : (b == 44) = true
          · rw [if_pos comma]
            obtain ⟨p, cut, -⟩ := parseOption_piece parsed
            have := congrArg List.length cut
            rw [List.length_append, List.length_cons] at this
            rw [List.length_cons] at this enough
            exact ih o' (by omega)
          · rw [if_neg comma]
            exact ⟨none, rfl⟩

theorem parseFrom_pieces {fuel : Nat} {o o' : PubKeyOptions} {s : Bytes}
    (h : parseFrom fuel o s = some (some o')) : Pieces o s o' := by
  induction fuel generalizing o s with
  | zero =>
    cases s with
    | nil =>
      cases h
      exact .last .empty
    | cons c s => cases h
  | succ fuel ih =>
    cases s with
    | nil =>
      cases h
      exact .last .empty
    | cons c s =>
      rw [parseFrom] at h
      cases parsed : parseOption o (c :: s) with
      | none =>
        rw [parsed] at h
        cases h
      | some x =>
        obtain ⟨o₁, rest⟩ := x
        rw [parsed] at h
        obtain ⟨p, cut, piece⟩ := parseOption_piece parsed
        cases rest with
        | nil =>
          cases h
          rw [cut, List.append_nil]
          exact .last piece
        | cons b rest =>
          dsimp only at h
          by_cases comma : (b == 44) = true
          · rw [if_pos comma] at h
            obtain rfl := beq_iff_eq.mp comma
            rw [cut]
            exact .more piece (ih h)
          · rw [if_neg comma] at h
            cases h

theorem parseFrom_succ {fuel : Nat} {o o' : PubKeyOptions} {s rest : Bytes} (some : s ≠ [])
    (h : parseOption o s = .some (o', 44 :: rest)) :
    parseFrom (fuel + 1) o s = parseFrom fuel o' rest := by
  cases s with
  | nil => exact absurd rfl some
  | cons c s =>
    rw [parseFrom, h]
    rfl

theorem Pieces.parseFrom {o o' : PubKeyOptions} {s : Bytes} (h : Pieces o s o') {fuel : Nat}
    (enough : s.length ≤ fuel) : Keys.parseFrom fuel o s = some (some o') := by
  induction h generalizing fuel with
  | @last o o' p piece =>
    cases p with
    | nil =>
      -- an option has a name, so that the empty piece is the only one
      generalize none : ([] : Bytes) = p at piece
      cases piece with
      | empty => cases fuel <;> rfl
      | @option name word text kind _ member same _ =>
        obtain ⟨c, rest, starts, -⟩ := name_starts member
        obtain rfl := (List.append_eq_nil_iff.mp none.symm).1
        rw [starts] at same
        cases same
    | cons c p =>
      have parsed : parseOption o (c :: p ++ []) = some (o', []) :=
        piece.parseOption (.inl (List.cons_ne_nil c p))
      rw [List.append_nil] at parsed
      cases fuel with
      | zero => cases enough
      | succ fuel => rw [Keys.parseFrom, parsed]
  | @more o o₁ o₂ p s piece _ ih =>
    rw [List.length_append, List.length_cons] at enough
    cases fuel with
    | zero => omega
    | succ fuel =>
      rw [parseFrom_succ (by simp) (piece.parseOption (.inr ⟨s, rfl⟩))]
      exact ih (by omega)

theorem svrParsePubkeyOptions_some {s : Bytes} {o : PubKeyOptions} :
    svrParsePubkeyOptions (some s) = some o ↔ parseFrom s.length {} s = some (some o) :=
  Option.join_eq_some_iff

theorem svrParsePubkeyOptions_pieces {s : Bytes} {o : PubKeyOptions} :
    svrParsePubkeyOptions (some s) = some o ↔ Pieces {} s o := by
  rw [svrParsePubkeyOptions_some]
  exact ⟨parseFrom_pieces, fun pieces => pieces.parseFrom (Nat.le_refl _)⟩

/-- The result does not depend on how many turns there are, as long as there are enough. -/
theorem parseFrom_enough {s : Bytes} (more : Nat) :
    parseFrom (s.length + more) {} s = some (svrParsePubkeyOptions (some s)) := by
  obtain ⟨read, ends⟩ := parseFrom_ends {} (Nat.le_add_right s.length more)
  obtain ⟨first, ended⟩ := parseFrom_ends {} (Nat.le_refl s.length)
  rw [ends, svrParsePubkeyOptions, ended, Option.join_some]
  congr 1
  have same (o : PubKeyOptions) : read = some o ↔ first = some o := by
    constructor
    · rintro rfl
      have := (parseFrom_pieces ends).parseFrom (Nat.le_refl _)
      rw [ended] at this
      exact Option.some.inj this
    · rintro rfl
      have := (parseFrom_pieces ended).parseFrom (Nat.le_add_right _ more)
      rw [ends] at this
      exact Option.some.inj this
  exact Option.ext same

/-- The loop comes to an end on every text, after no more turns than the text has bytes, be it
in `bad_option` or not. What is accepted are the pieces between commas that read as nothing or as
one option, with their names in any case. -/
theorem options_accepted_iff {s : Bytes} {o : PubKeyOptions} (more : Nat) :
    parseFrom (s.length + more) {} s = some (svrParsePubkeyOptions (some s)) ∧
      (svrParsePubkeyOptions (some s) = some o ↔ Pieces {} s o) :=
  ⟨parseFrom_enough more, svrParsePubkeyOptions_pieces⟩

/-! ## What a restriction is worth -/

/-- What `o` forbids, `o'` forbids too. -/
structure PubKeyOptions.Within (o o' : PubKeyOptions) : Prop where
  portForwarding : o.noPortForwarding = true → o'.noPortForwarding = true
  pty : o.noPty = true → o'.noPty = true
  command : ∀ c, o.forcedCommand = some c → o'.forcedCommand = some c
  opens : o.permitOpenDestinations.isSome = true → o'.permitOpenDestinations.isSome = true
  listens : o.permitListens.isSome = true → o'.permitListens.isSome = true
  verify : o.verifyRequired = true → o'.verifyRequired = true

theorem PubKeyOptions.Within.refl (o : PubKeyOptions) : o.Within o :=
  ⟨id, id, fun _ => id, id, id, id⟩

theorem PubKeyOptions.Within.trans {o o' o'' : PubKeyOptions} (h : o.Within o')
    (h' : o'.Within o'') : o.Within o'' where
  portForwarding := h'.portForwarding ∘ h.portForwarding
  pty := h'.pty ∘ h.pty
  command := fun c hc => h'.command c (h.command c hc)
  opens := h'.opens ∘ h.opens
  listens := h'.listens ∘ h.listens
  verify := h'.verify ∘ h.verify

/-- No flag of the table takes anything back. -/
theorem flag_within {name : Bytes} {set : PubKeyOptions → PubKeyOptions}
    (h : (name, Kind.flag set) ∈ kinds) (o : PubKeyOptions) : o.Within (set o) := by
  simp only [kinds, List.mem_cons, Prod.mk.injEq, Kind.flag.injEq, reduceCtorEq, and_false,
    List.not_mem_nil, or_false, false_or] at h
  rcases h with ⟨-, rfl⟩ | ⟨-, rfl⟩ | ⟨-, rfl⟩ | ⟨-, rfl⟩ | ⟨-, rfl⟩ | ⟨-, rfl⟩ | ⟨-, rfl⟩ <;>
    constructor <;> simp

theorem Piece.within {o o' : PubKeyOptions} {p : Bytes} (h : Piece o p o') : o.Within o' := by
  cases h with
  | empty => exact .refl o
  | option member _ reads =>
    cases reads with
    | flag => exact flag_within member o
    | command given _ =>
      refine ⟨id, id, fun c hc => ?_, id, id, id⟩
      rw [given] at hc
      cases hc
    | permitopen _ _ => exact ⟨id, id, fun _ => id, fun _ => rfl, id, id⟩
    | permitlisten _ _ => exact ⟨id, id, fun _ => id, id, fun _ => rfl, id⟩

theorem Pieces.within {o o' : PubKeyOptions} {s : Bytes} (h : Pieces o s o') : o.Within o' := by
  induction h with
  | last piece => exact piece.within
  | more piece _ ih => exact piece.within.trans ih

/-- Behind a comma the parser goes on from what it has. -/
theorem Pieces.append {o o₁ o' : PubKeyOptions} {s t : Bytes} (h : Pieces o s o₁)
    (parsed : Pieces o (s ++ 44 :: t) o') : Pieces o₁ t o' := by
  have whole := parsed.parseFrom (Nat.le_refl _)
  clear parsed
  generalize (s ++ 44 :: t).length = fuel at whole
  induction h generalizing fuel with
  | @last o o₁ p piece =>
    cases fuel with
    | zero => cases p <;> cases whole
    | succ fuel =>
      rw [parseFrom_succ (by simp) (piece.parseOption (.inr ⟨t, rfl⟩))] at whole
      exact parseFrom_pieces whole
  | @more o o₁ o₂ p s piece _ ih =>
    rw [List.append_assoc, List.cons_append] at whole
    cases fuel with
    | zero => cases p <;> cases whole
    | succ fuel =>
      rw [parseFrom_succ (by simp) (piece.parseOption (.inr ⟨_, rfl⟩))] at whole
      exact ih fuel whole

/-- Nothing that is added behind the options of a key takes back what they forbid: not the
flags, not the command that is forced, not that ports are limited. -/
theorem restrictions_kept {s t : Bytes} {o o' : PubKeyOptions}
    (h : svrParsePubkeyOptions (some s) = some o)
    (h' : svrParsePubkeyOptions (some (s ++ 44 :: t)) = some o') : o.Within o' :=
  ((svrParsePubkeyOptions_pieces.mp h).append (svrParsePubkeyOptions_pieces.mp h')).within

/-- From the file to the settings: the options of a key that is accepted are those of a line
that has the key, read piece by piece. -/
theorem accepted_options {algo keyblob : Bytes} {file : Option Bytes} {o : Options PubKeyOptions}
    (h : checkpubkey svrParsePubkeyOptions algo keyblob file = .ok (some o)) :
    ∃ content line options text, file = some content ∧ line ∈ getlines [] content ∧
      Names algo options line (32 :: text) ∧ Base64.decode (dataOf text) = some keyblob ∧
      (options = none ∧ o.parsed = {} ∨ ∃ s, options = some s ∧ Pieces {} s o.parsed) := by
  obtain ⟨content, line, rfl, member, lists⟩ := checkpubkey_line h
  obtain ⟨options, text, names, decoded, parsed⟩ := lists.named
  refine ⟨content, line, options, text, rfl, member, names, decoded, ?_⟩
  cases options with
  | none => exact .inl ⟨rfl, (Option.some.inj parsed).symm⟩
  | some s => exact .inr ⟨s, rfl, svrParsePubkeyOptions_pieces.mp parsed⟩

end Ikofi.Keys
