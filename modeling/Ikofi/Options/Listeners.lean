import Ikofi.Options.Bounds
import Ikofi.Service.PidFile

/-!
# The ports of the command line

Arguments that are accepted are complete options, one after the other, and the
server listens on the ports that these are given, as long as it has a place for
them. `startSshd` puts the port preference in front, unless a word of the user's
options is `-p`.
-/

namespace Ikofi.Options

open PasswordFile Service

def defaultPort : Int32 := 2222

/-- The preference is `none` where it was never set. -/
def getPort (pref : Option JString) : Int32 :=
  match pref with
  | some ps => if isBlank ps then defaultPort else ((parseInt ps).map Int32.ofInt).getD defaultPort
  | none => defaultPort

def dropbearDefport : Bytes := lit "2222"

def dropbearDefaddress : Bytes := []

/-- The addresses and ports that `svr_getopts` has registered when it returns. What it
checks behind the option loop does not touch them any more. -/
def listeners (o : SvrOpts) : List (Bytes × Bytes) :=
  if o.ports.length = 0 then [(dropbearDefaddress, dropbearDefport)] else o.ports

/-- The words are these options, one after the other. -/
def Written (ps : List Piece) (words : List JString) : Prop :=
  (∀ p ∈ ps, p.WellFormed) ∧ words.map fromJavaString = ps.flatMap Piece.args

/-- The ports that the options are given. -/
def specs (ps : List Piece) : List Bytes := ps.filterMap Piece.spec

section
variable {argv rest : List Bytes} {i : Nat} {o o' : SvrOpts} {ps : List Piece}

/-- The loop takes complete options one after the other. -/
theorem optionLoop_pieces (wf : ∀ p ∈ ps, p.WellFormed)
    (h : argv.drop i = ps.flatMap Piece.args ++ rest) :
    optionLoop argv i o = (ps.foldlM (fun o p => p.run o) o >>=
      optionLoop argv (i + (ps.flatMap Piece.args).length)) := by
  induction ps generalizing i o with
  | nil => rfl
  | cons p ps ih =>
    rw [List.forall_mem_cons] at wf
    rw [List.flatMap_cons, List.append_assoc] at h
    rw [optionLoop_piece wf.1 h, List.foldlM_cons, bind_assoc]
    congr 1
    funext o
    rw [ih wf.2 (drop_args h), List.flatMap_cons, List.length_append, Nat.add_assoc]

/-- Arguments that are accepted are complete options, which have been run. -/
theorem pieces_of_ok (h : optionLoop argv i o = .ok o') :
    ∃ ps : List Piece, (∀ p ∈ ps, p.WellFormed) ∧ argv.drop i = ps.flatMap Piece.args ∧
      ps.foldlM (fun o p => p.run o) o = .ok o' := by
  generalize hn : argv.length - i = n
  induction n using Nat.strong_induction_on generalizing i o with
  | _ n ih =>
    rcases optionLoop_cases argv i o with
      ⟨p, rest, wf, hp⟩ | ⟨fs, x, flags, waits, hp⟩ | hp | ⟨e, he, -⟩
    · rw [optionLoop_piece wf hp] at h
      cases run : p.run o with
      | error e => rw [run] at h; cases h
      | ok o₁ =>
        rw [run] at h
        obtain ⟨ps, wfs, tail, runs⟩ := ih _ (hn ▸ fewer_left hp) h rfl
        refine ⟨p :: ps, List.forall_mem_cons.mpr ⟨wf, wfs⟩, ?_, ?_⟩
        · rw [hp, List.flatMap_cons, ← tail, drop_args hp]
        · rw [List.foldlM_cons, run]
          exact runs
    · rw [optionLoop_last flags waits hp] at h
      cases h
    · have inside : ¬ i < argv.length := Nat.not_lt.mpr (List.drop_eq_nil_iff.mp hp)
      rw [optionLoop, if_neg inside] at h
      exact ⟨[], by simp, hp, h⟩
    · rw [he] at h
      cases h

theorem passwords_of_run (h : ps.foldlM (fun o p => p.run o) o = .ok o') :
    o'.passwords = o.passwords := by
  induction ps generalizing o with
  | nil =>
    cases h
    rfl
  | cons p ps ih =>
    rw [List.foldlM_cons] at h
    cases run : p.run o with
    | error e => rw [run] at h; cases h
    | ok o₁ =>
      rw [run] at h
      rw [ih h, run_passwords run]

/-- The ports are registered in order, as long as there is a place. -/
theorem ports_of_run (h : ps.foldlM (fun o p => p.run o) o = .ok o') :
    o'.ports.map some = o.ports.map some ++
      ((specs ps).take (dropbearMaxPorts - o.ports.length)).map fun spec =>
        (binding spec).toOption := by
  induction ps generalizing o with
  | nil =>
    cases h
    simp [specs]
  | cons p ps ih =>
    rw [List.foldlM_cons] at h
    cases run : p.run o with
    | error e => rw [run] at h; cases h
    | ok o₁ =>
      rw [run] at h
      rw [ih h]
      obtain ⟨ports, -⟩ := withFlags_lists (o := o) p.switches
      unfold specs
      rcases p.run_cases o with
        ⟨spec, -, o₂, run', same, -⟩ | ⟨v, spec, -, run'⟩ | ⟨v, spec, -, run'⟩
      · cases run.symm.trans run'
        rw [List.filterMap_cons_none spec, same]
      · rw [List.filterMap_cons_some spec]
        rw [run', addportandaddress, ports] at run
        by_cases full : dropbearMaxPorts ≤ o.ports.length
        · rw [if_pos full] at run
          cases run
          simp [ports, Nat.sub_eq_zero_of_le full]
        · rw [if_neg full] at run
          have room : dropbearMaxPorts - o.ports.length =
              dropbearMaxPorts - (o.ports.length + 1) + 1 := by
            omega
          cases hb : binding v with
          | error e => rw [hb] at run; cases run
          | ok b =>
            rw [hb] at run
            cases run
            simp [room, hb, Except.toOption]
      · rw [List.filterMap_cons_none spec]
        rw [run', addhostkey] at run
        split at run
        · cases run
        · cases run
          rw [ports]

end

/-- A byte below 128 is one unit of the Java string. -/
theorem fromJavaString_cons {u : UInt16} {s : JString} {b : UInt8} {bs : Bytes} (ascii : b < 128)
    (h : fromJavaString (u :: s) = b :: bs) : u.toNat = b.toNat ∧ fromJavaString s = bs := by
  have small : b.toNat < 128 := ascii
  have bound := u.toNat_lt
  simp only [fromJavaString, List.flatMap_cons, modifiedUtf8] at h
  split at h
  · rename_i one
    obtain ⟨rfl, rest⟩ := List.cons.inj h
    refine ⟨?_, rest⟩
    rw [UInt8.toNat_ofNat']
    omega
  · split at h
    · have first := congrArg UInt8.toNat (List.cons.inj h).1
      rw [UInt8.toNat_ofNat'] at first
      omega
    · have first := congrArg UInt8.toNat (List.cons.inj h).1
      rw [UInt8.toNat_ofNat'] at first
      omega

theorem fromJavaString_eq_nil {s : JString} (h : fromJavaString s = []) : s = [] := by
  cases s with
  | nil => rfl
  | cons u s =>
    simp only [fromJavaString, List.flatMap_cons, modifiedUtf8, List.append_eq_nil_iff] at h
    split at h
    · cases h.1
    · split at h <;> cases h.1

theorem fromJavaString_eq_dashP {s : JString} : fromJavaString s = lit "-p" ↔ s = jlit "-p" := by
  constructor
  · intro h
    have bytes : lit "-p" = [45, 112] := by decide
    rw [bytes] at h
    match s, h with
    | [], h => cases h
    | [u], h =>
      obtain ⟨-, rest⟩ := fromJavaString_cons (by decide) h
      cases rest
    | u :: v :: s, h =>
      obtain ⟨hu, rest⟩ := fromJavaString_cons (by decide) h
      obtain ⟨hv, rest⟩ := fromJavaString_cons (by decide) rest
      obtain rfl := fromJavaString_eq_nil rest
      obtain rfl : u = 45 := UInt16.toNat_inj.mp hu
      obtain rfl : v = 112 := UInt16.toNat_inj.mp hv
      decide
  · rintro rfl
    decide

theorem fromJavaString_jlit {s : String} (ascii : ∀ c ∈ s.toList, 0 < c.toNat ∧ c.toNat < 128) :
    fromJavaString (jlit s) = lit s := by
  unfold jlit lit
  generalize s.toList = cs at ascii
  induction cs with
  | nil => rfl
  | cons c cs ih =>
    rw [List.forall_mem_cons] at ascii
    obtain ⟨⟨positive, small⟩, rest⟩ := ascii
    have unit : utf16EncodeChar c = [UInt16.ofNat c.toNat] := by
      rw [utf16EncodeChar, if_pos (by omega)]
    have value : (UInt16.ofNat c.toNat).toNat = c.toNat := by
      rw [UInt16.toNat_ofNat']
      omega
    have byte : modifiedUtf8 (UInt16.ofNat c.toNat) = [UInt8.ofNat c.toNat] := by
      rw [modifiedUtf8, value, if_pos (by omega)]
    simp only [fromJavaString, utf16Encode, utf8Encode, List.flatMap_cons, List.flatMap_append, unit,
      List.flatMap_nil, List.append_nil, byte, utf8EncodeChar_ascii small] at ih ⊢
    rw [ih rest]

theorem toString_int_chars (n : Int) :
    ∀ c ∈ (toString n).toList, c = '-' ∨ c.isDigit = true := by
  have digits : ∀ n : Nat, ∀ c ∈ (toString n).toList, c.isDigit = true := by
    intro n c hc
    rw [Nat.toString_eq_repr, Nat.toList_repr] at hc
    exact Nat.isDigit_of_mem_toDigits (by decide) (by decide) hc
  intro c hc
  cases n with
  | ofNat n => exact Or.inr (digits n c hc)
  | negSucc n =>
    have text : toString (Int.negSucc n) = "-" ++ toString (n + 1) := rfl
    rw [text, String.toList_append, List.mem_append] at hc
    rcases hc with sign | hc
    · exact Or.inl (by simpa using sign)
    · exact Or.inr (digits _ c hc)

theorem toString_int_ascii (n : Int) :
    ∀ c ∈ (toString n).toList, 0 < c.toNat ∧ c.toNat < 128 ∧ c ≠ ':' ∧ c ≠ '[' := by
  intro c hc
  rcases toString_int_chars n c hc with rfl | digit
  · decide
  · have range : 48 ≤ c.toNat ∧ c.toNat ≤ 57 := by
      simpa [Char.isDigit, UInt32.le_iff_toNat_le] using digit
    refine ⟨by omega, by omega, ?_, ?_⟩
    · rintro rfl
      exact absurd range.2 (by decide)
    · rintro rfl
      exact absurd range.2 (by decide)

theorem toString_int_ne_nil (n : Int) : (toString n).toList ≠ [] := by
  cases n with
  | ofNat n =>
    change (toString n).toList ≠ []
    rw [Nat.toString_eq_repr, Nat.toList_repr]
    exact Nat.toDigits_ne_nil
  | negSucc n =>
    have text : toString (Int.negSucc n) = "-" ++ toString (n + 1) := rfl
    simp [text]

/-- The digits of the port preference hold no colon and no bracket. -/
theorem lit_int (n : Int) :
    lit (toString n) ≠ [] ∧ 58 ∉ lit (toString n) ∧ 91 ∉ lit (toString n) := by
  have byte : ∀ b ∈ lit (toString n), ∃ c ∈ (toString n).toList, b.toNat = c.toNat := by
    intro b hb
    obtain ⟨c, hc, hb⟩ := List.mem_flatMap.mp hb
    obtain ⟨-, small, -⟩ := toString_int_ascii n c hc
    rw [utf8EncodeChar_ascii small, List.mem_singleton] at hb
    refine ⟨c, hc, ?_⟩
    rw [hb, UInt8.toNat_ofNat']
    omega
  refine ⟨?_, ?_, ?_⟩
  · obtain ⟨c, cs, chars⟩ := List.exists_cons_of_ne_nil (toString_int_ne_nil n)
    rw [lit, chars]
    simp [utf8Encode, String.utf8EncodeChar_ne_nil]
  · intro colon
    obtain ⟨c, hc, value⟩ := byte _ colon
    obtain ⟨-, -, other, -⟩ := toString_int_ascii n c hc
    exact other (Char.toNat_inj.mp value.symm)
  · intro bracket
    obtain ⟨c, hc, value⟩ := byte _ bracket
    obtain ⟨-, -, -, other⟩ := toString_int_ascii n c hc
    exact other (Char.toNat_inj.mp value.symm)

section
variable {port : Bytes}

theorem takeWhile_reverse (noColon : 58 ∉ port) (before : Bytes) :
    (port.reverse ++ before).takeWhile (· != 58) = port.reverse ++ before.takeWhile (· != 58) := by
  refine List.takeWhile_append_of_pos fun b hb => ?_
  simp only [bne_iff_ne, ne_eq]
  rintro rfl
  exact noColon (List.mem_reverse.mp hb)

theorem binding_bare (filled : port ≠ []) (noColon : 58 ∉ port) (noBracket : 91 ∉ port) :
    binding port = .ok ([], port) := by
  have split : splitLastColon port = (port, none) := by
    have whole := takeWhile_reverse noColon []
    rw [List.append_nil, List.takeWhile_nil, List.append_nil] at whole
    rw [splitLastColon, whole, List.drop_length]
  have parts : splitAddressPort port = some (some port, none) := by
    unfold splitAddressPort
    split
    · exact absurd (by simp) noBracket
    · simp [split, filled]
  simp [binding, parts, filled]

theorem binding_star (filled : port ≠ []) (noColon : 58 ∉ port) :
    binding (42 :: 58 :: port) = .ok (lit "*", port) := by
  have split : splitLastColon (42 :: 58 :: port) = ([42], some port) := by
    have upto := takeWhile_reverse noColon [58, 42]
    have none : ([58, 42] : Bytes).takeWhile (· != 58) = [] := by decide
    rw [none, List.append_nil] at upto
    simp [splitLastColon, upto]
  have parts : splitAddressPort (42 :: 58 :: port) = some (some [42], some port) := by
    simp [splitAddressPort, split]
  have star : lit "*" = [42] := by decide
  simp [binding, parts, filled, star]

end

/-- The options in front of the user's own. -/
def front (port : Int32) (words : List JString) : List Piece :=
  [.flags [101], .flags [82], .flags [70]] ++
    if words.contains (jlit "-p") then [] else [.separate [] 112 (lit (toString port.toInt))]

section
variable {options : JString} {port : Int32} {o : SvrOpts} {ps : List Piece}

theorem switch_wellFormed {c : UInt8} (flag : isFlag c = true) : (Piece.flags [c]).WellFormed :=
  ⟨by simp, by simpa using flag⟩

theorem port_wellFormed (v : Bytes) : (Piece.separate [] 112 v).WellFormed := ⟨by simp, by decide⟩

theorem front_wellFormed (port : Int32) (words : List JString) :
    ∀ p ∈ front port words, p.WellFormed := by
  intro p hp
  rcases List.mem_append.mp hp with hp | hp
  · simp only [List.mem_cons, List.not_mem_nil, or_false] at hp
    rcases hp with rfl | rfl | rfl <;> exact switch_wellFormed (by decide)
  · split at hp
    · cases hp
    · obtain rfl := List.mem_singleton.mp hp
      exact port_wellFormed _

theorem specs_front (port : Int32) (words : List JString) (ps : List Piece) :
    specs (front port words ++ ps) =
      (if words.contains (jlit "-p") then [] else [lit (toString port.toInt)]) ++ specs ps := by
  have switches : specs [.flags [101], .flags [82], .flags [70]] = [] := by decide
  have plain : ∀ v, specs [.separate [] 112 v] = [v] := fun v => rfl
  unfold front specs at *
  rw [List.filterMap_append, List.filterMap_append, switches, List.nil_append]
  split
  · rfl
  · rw [plain]

/-- `argv` behind the program name. -/
theorem startSshdArgv_tail (options : JString) (port : Int32) :
    (startSshdArgv options port).drop 1 =
      (front port (splitOptions options)).flatMap Piece.args ++
        (splitOptions options).map fromJavaString := by
  have ascii := toString_int_ascii port.toInt
  have digits := fromJavaString_jlit fun c hc => ⟨(ascii c hc).1, (ascii c hc).2.1⟩
  have switches : ["-e", "-R", "-F"].map (fun s => fromJavaString (jlit s)) =
      [[45, 101], [45, 82], [45, 70]] := by decide
  have dashP : fromJavaString (jlit "-p") = [45, 112] := by decide
  simp only [List.map_cons, List.map_nil, List.cons.injEq, and_true] at switches
  unfold startSshdArgv startSshdArgs front
  by_cases own : jlit "-p" ∈ splitOptions options
  · simp [own, Piece.args, switches]
  · simp only [List.contains_iff_mem, own, if_false, List.map_append, List.map_cons, List.map_nil,
      digits, dashP, switches]
    rfl

/-- Accepted arguments are options that the user has written. -/
theorem written_of_accepted (h : svrGetoptsLoop (startSshdArgv options port) = .ok o) :
    ∃ ps, Written ps (splitOptions options) := by
  have tail := startSshdArgv_tail options port
  have wf := front_wellFormed port (splitOptions options)
  rw [svrGetoptsLoop, optionLoop_pieces wf tail] at h
  cases run : (front port (splitOptions options)).foldlM (fun o p => p.run o) {} with
  | error e => rw [run] at h; cases h
  | ok o₁ =>
    rw [run] at h
    obtain ⟨ps, wfs, words, -⟩ := pieces_of_ok h
    refine ⟨ps, wfs, ?_⟩
    rw [← words, ← List.drop_drop, tail, List.drop_left]

/-- No command line says anything about passwords. -/
theorem passwords_of_accepted {argv : List Bytes} (h : svrGetoptsLoop argv = .ok o) :
    o.passwords = (false, false, false, false) := by
  obtain ⟨ps, -, -, runs⟩ := pieces_of_ok h
  exact passwords_of_run runs

/-- The registered ports, in the terms of what the user has written. -/
theorem ports_of_accepted (h : svrGetoptsLoop (startSshdArgv options port) = .ok o)
    (written : Written ps (splitOptions options)) :
    o.ports.map some =
      (((if (splitOptions options).contains (jlit "-p") then [] else [lit (toString port.toInt)]) ++
        specs ps).take dropbearMaxPorts).map fun spec => (binding spec).toOption := by
  obtain ⟨wf, words⟩ := written
  have tail := startSshdArgv_tail options port
  rw [words, ← List.flatMap_append, ← List.append_nil (List.flatMap _ _)] at tail
  have wfs : ∀ p ∈ front port (splitOptions options) ++ ps, p.WellFormed := by
    intro p hp
    rcases List.mem_append.mp hp with hp | hp
    · exact front_wellFormed _ _ p hp
    · exact wf p hp
  rw [svrGetoptsLoop, optionLoop_pieces wfs tail] at h
  cases run : (front port (splitOptions options) ++ ps).foldlM (fun o p => p.run o) {} with
  | error e => rw [run] at h; cases h
  | ok o₁ =>
    rw [run] at h
    have ended : (startSshdArgv options port).drop
        (1 + ((front port (splitOptions options) ++ ps).flatMap Piece.args).length) = [] := by
      rw [← List.drop_drop, tail, List.drop_left]
    cases (optionLoop_end ended).symm.trans h
    rw [← specs_front]
    exact ports_of_run run

end

end Ikofi.Options
