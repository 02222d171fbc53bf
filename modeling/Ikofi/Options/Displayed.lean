import Ikofi.Options.Listeners

/-!
# The listeners that the app shows

The app shows the words that stand behind a `-p`. The server reads the same
words as options: a port may be attached to its letter or follow other letters,
a `-p` may be the value of another option, and ten ports are the most it takes.
-/

namespace Ikofi.Options

def collectBindings : List JString → List JString
  | s :: next :: rest =>
    if s = jlit "-p" then next :: collectBindings rest else collectBindings (next :: rest)
  | _ => []

def getBindings (options : JString) (port : Option JString) : List JString :=
  let userOptions := splitOptions options
  if userOptions.contains (jlit "-p") then collectBindings userOptions
  else [jlit "*:" ++ jlit (toString (getPort port).toInt)]

/-- A text as the user reads it, in the syntax of `-p` and with `*` for the default
address; `none` where it names no binding. -/
def reading (text : Bytes) : Option (Bytes × Bytes) :=
  match binding text with
  | .ok (address, port) => some (if address = lit "*" then dropbearDefaddress else address, port)
  | .error _ => none

def shown (text : JString) : Option (Bytes × Bytes) := reading (fromJavaString text)

/-- The displayed listeners are the registered ones, in the same order. -/
def Displayed (options : JString) (port : Option JString) (o : SvrOpts) : Prop :=
  (getBindings options port).map shown = (listeners o).map some

instance (options : JString) (port : Option JString) (o : SvrOpts) :
    Decidable (Displayed options port o) := inferInstanceAs (Decidable (_ = _))

namespace Piece

/-- A port in a word of its own, behind a word `-p`. -/
def plainSpec : Piece → Option Bytes
  | .separate [] 112 v => some v
  | _ => none

/-- Another option has the value `-p`, in a word of its own. -/
def stray : Piece → Bool
  | .separate [] 112 _ => false
  | .separate _ _ v => v == lit "-p"
  | _ => false

end Piece

/-- Every word `-p` is an option, and there is a place for every port. -/
def Tidy (ps : List Piece) : Prop :=
  (∀ p ∈ ps, p.stray = false) ∧ (specs ps).length ≤ dropbearMaxPorts

instance (ps : List Piece) : Decidable (Tidy ps) := inferInstanceAs (Decidable (_ ∧ _))

/-- The word at `i` stands behind a `-p` that does not itself stand behind one. -/
def behindP (words : List JString) : Nat → Bool
  | 0 => false
  | i + 1 => words[i]? == some (jlit "-p") && !behindP words i

/-- Every port is plain, and none has the address `*`. -/
def PlainPorts (ps : List Piece) : Prop :=
  ∀ p ∈ ps, ∀ spec, p.spec = some spec →
    p.plainSpec = some spec ∧ ∀ port, binding spec ≠ .ok (lit "*", port)

/-- The words behind a `-p` happen to say the ports that there is a place for, or the default
listener if there is no port at all. -/
def SayPorts (ps : List Piece) (words : List JString) : Prop :=
  (words.zipIdx.filter fun w => behindP words w.2).map (fun w => shown w.1) =
    if specs ps = [] then [some (dropbearDefaddress, dropbearDefport)]
    else ((specs ps).take dropbearMaxPorts).map fun spec => (binding spec).toOption

/-- The options whose listeners are displayed. If no word is `-p`, they have no port. If
they are tidy, their ports are plain. In the others, what stands behind a `-p` need not be a
port that there is a place for, and only the words themselves can tell. -/
def AsShown (ps : List Piece) (words : List JString) : Prop :=
  if !words.contains (jlit "-p") then specs ps = []
  else if Tidy ps then PlainPorts ps
  else SayPorts ps words

/-- The text that is shown for the port preference is the listener it becomes. -/
theorem shown_port (port : Int32) :
    shown (jlit "*:" ++ jlit (toString port.toInt)) =
      (binding (lit (toString port.toInt))).toOption := by
  obtain ⟨filled, noColon, noBracket⟩ := lit_int port.toInt
  have ascii := toString_int_ascii port.toInt
  have digits := fromJavaString_jlit fun c hc => ⟨(ascii c hc).1, (ascii c hc).2.1⟩
  have text : fromJavaString (jlit "*:" ++ jlit (toString port.toInt)) =
      42 :: 58 :: lit (toString port.toInt) := by
    have star : fromJavaString (jlit "*:") = [42, 58] := by decide
    simp only [fromJavaString] at star digits ⊢
    rw [List.flatMap_append, star, digits]
    rfl
  rw [shown, reading, text, binding_star filled noColon, binding_bare filled noColon noBracket]
  simp [Except.toOption, dropbearDefaddress]

section
variable {w : JString} {words : List JString}

theorem behindP_other (other : w ≠ jlit "-p") (i : Nat) :
    behindP (w :: words) (i + 1) = behindP words i := by
  induction i with
  | zero => simp [behindP, other]
  | succ i ih => rw [behindP, ih, behindP, List.getElem?_cons_succ]

theorem behindP_dashP (i : Nat) : behindP (jlit "-p" :: w :: words) (i + 2) = behindP words i := by
  induction i with
  | zero => simp [behindP]
  | succ i ih => rw [behindP, ih, behindP, List.getElem?_cons_succ, List.getElem?_cons_succ]

/-- Positions counted from `k` on. -/
theorem filter_zipIdx {f g : Nat → Bool} {k : Nat} (shift : ∀ i, f (i + k) = g i) :
    ((words.zipIdx k).filter fun w => f w.2).map Prod.fst =
      (words.zipIdx.filter fun w => g w.2).map Prod.fst := by
  rw [List.zipIdx_eq_map_add, List.filter_map, List.map_map]
  simp only [Function.comp_def, Nat.add_comm k, shift]

/-- `collectBindings` finds the words behind a `-p`. -/
theorem collectBindings_eq (words : List JString) :
    collectBindings words = (words.zipIdx.filter fun w => behindP words w.2).map Prod.fst := by
  fun_induction collectBindings words with
  | case1 next rest ih =>
    have second : behindP (jlit "-p" :: next :: rest) 1 = true := by simp [behindP]
    rw [List.zipIdx_cons, List.filter_cons_of_neg (by simp [behindP]), List.zipIdx_cons,
      List.filter_cons_of_pos (by exact second), List.map_cons, filter_zipIdx behindP_dashP, ih]
  | case2 s next rest other ih =>
    rw [List.zipIdx_cons, List.filter_cons_of_neg (by simp [behindP]),
      filter_zipIdx (behindP_other other), ih]
  | case3 words short =>
    match words, short with
    | [], _ => rfl
    | [w], _ => simp [behindP]
    | s :: next :: rest, short => exact absurd rfl (short s next rest)

end

section
variable {p : Piece} {ps : List Piece} {words rest : List JString} {spec : Bytes}

theorem spec_of_plainSpec (h : p.plainSpec = some spec) : p.spec = some spec := by
  unfold Piece.plainSpec at h
  split at h <;> cases h
  rfl

theorem plainSpec_cases (fs : Bytes) (x : UInt8) (v : Bytes) :
    (fs = [] ∧ x = 112) ∨
    ((Piece.separate fs x v).plainSpec = none ∧
      (Piece.separate fs x v).stray = (v == lit "-p") ∧ 45 :: (fs ++ [x]) ≠ lit "-p") := by
  by_cases plain : fs = [] ∧ x = 112
  · exact Or.inl plain
  · refine Or.inr ⟨?_, ?_, ?_⟩
    · unfold Piece.plainSpec
      split
      · rename_i same
        cases same
        exact absurd ⟨rfl, rfl⟩ plain
      · rfl
    · unfold Piece.stray
      split
      · rename_i same
        cases same
        exact absurd ⟨rfl, rfl⟩ plain
      · rename_i same
        cases same
        rfl
      · rename_i other
        exact absurd rfl (other fs x v)
    · intro same
      have bytes : lit "-p" = [45, 112] := by decide
      rw [bytes] at same
      cases fs with
      | nil => exact plain ⟨rfl, by simpa using same⟩
      | cons f fs => simp at same

/-- Without a value `-p` for another option, the word is there for a plain port only. -/
theorem dashP_mem_args (wf : p.WellFormed) (noStray : p.stray = false) :
    lit "-p" ∈ p.args ↔ ∃ spec, p.plainSpec = some spec := by
  have bytes : lit "-p" = [45, 112] := by decide
  cases p with
  | flags fs =>
    simp only [Piece.args, List.mem_singleton, Piece.plainSpec, reduceCtorEq, exists_false,
      iff_false, bytes, List.cons.injEq, true_and]
    rintro rfl
    exact absurd (wf.2 112 (by simp)) (by decide)
  | joined fs x v =>
    simp only [Piece.args, List.mem_singleton, Piece.plainSpec, reduceCtorEq, exists_false,
      iff_false, bytes, List.cons.injEq, true_and]
    intro same
    have filled : 0 < v.length := List.length_pos_of_ne_nil wf.2.2
    have := congrArg List.length same
    simp only [List.length_append, List.length_cons, List.length_nil] at this
    omega
  | separate fs x v =>
    rcases plainSpec_cases fs x v with ⟨rfl, rfl⟩ | ⟨none, stray, other⟩
    · simp [Piece.args, Piece.plainSpec, bytes]
    · rw [stray, beq_eq_false_iff_ne] at noStray
      simp [Piece.args, none, other.symm, noStray.symm]

theorem dashP_mem_words (written : Written ps words) (noStray : ∀ p ∈ ps, p.stray = false) :
    jlit "-p" ∈ words ↔ ∃ p ∈ ps, ∃ spec, p.plainSpec = some spec := by
  have bytes : jlit "-p" ∈ words ↔ lit "-p" ∈ words.map fromJavaString := by
    simp [List.mem_map, fromJavaString_eq_dashP]
  rw [bytes, written.2, List.mem_flatMap]
  exact exists_congr fun p => and_congr_right fun hp =>
    dashP_mem_args (written.1 p hp) (noStray p hp)

theorem collectBindings_other {w : JString} (other : fromJavaString w ≠ lit "-p") :
    collectBindings (w :: words) = collectBindings words := by
  rw [ne_eq, fromJavaString_eq_dashP] at other
  cases words with
  | nil => rfl
  | cons next rest => rw [collectBindings, if_neg other]

/-- The scan stays in step with an option that is not stray. -/
theorem collectBindings_piece (wf : p.WellFormed) (noStray : p.stray = false)
    (h : words.map fromJavaString = p.args) :
    (collectBindings (words ++ rest)).map fromJavaString =
      p.plainSpec.toList ++ (collectBindings rest).map fromJavaString := by
  have mem := dashP_mem_args wf noStray
  cases p with
  | flags fs | joined fs x v =>
    obtain ⟨w, words, rfl, hw, hn⟩ := List.map_eq_cons_iff.mp h
    obtain rfl := List.map_eq_nil_iff.mp hn
    have other : fromJavaString w ≠ lit "-p" := by
      intro same
      rw [hw] at same
      obtain ⟨spec, plain⟩ := mem.mp (by simp [Piece.args, same])
      cases plain
    rw [List.cons_append, List.nil_append, collectBindings_other other]
    rfl
  | separate fs x v =>
    obtain ⟨w, words, rfl, hw, hn⟩ := List.map_eq_cons_iff.mp h
    obtain ⟨w', words, rfl, hw', hn⟩ := List.map_eq_cons_iff.mp hn
    obtain rfl := List.map_eq_nil_iff.mp hn
    rcases plainSpec_cases fs x v with ⟨rfl, rfl⟩ | ⟨none, stray, other⟩
    · have dashP : fromJavaString w = lit "-p" := by
        rw [hw]
        decide
      rw [fromJavaString_eq_dashP] at dashP
      simp [collectBindings, dashP, Piece.plainSpec, hw']
    · rw [stray, beq_eq_false_iff_ne, ← hw'] at noStray
      rw [← hw] at other
      rw [List.cons_append, List.cons_append, List.nil_append, collectBindings_other other,
        collectBindings_other noStray, none]
      rfl

/-- The scan finds the plain ports. -/
theorem collectBindings_written (written : Written ps words)
    (noStray : ∀ p ∈ ps, p.stray = false) :
    (collectBindings words).map fromJavaString = ps.filterMap Piece.plainSpec := by
  induction ps generalizing words with
  | nil =>
    obtain rfl := List.map_eq_nil_iff.mp written.2
    rfl
  | cons p ps ih =>
    obtain ⟨wf, bytes⟩ := written
    rw [List.forall_mem_cons] at wf noStray
    rw [List.flatMap_cons] at bytes
    obtain ⟨first, rest, rfl, hf, hr⟩ := List.map_eq_append_iff.mp bytes
    rw [collectBindings_piece wf.1 noStray.1 hf, ih ⟨wf.2, hr⟩ noStray.2, List.filterMap_cons]
    cases p.plainSpec <;> rfl

end

section
variable {ps : List Piece} {words : List JString} {spec : Bytes}

theorem reading_eq_binding :
    reading spec = (binding spec).toOption ↔ ∀ port, binding spec ≠ .ok (lit "*", port) := by
  unfold reading
  cases hb : binding spec with
  | error e => simp [Except.toOption]
  | ok b =>
    obtain ⟨address, port⟩ := b
    by_cases star : address = lit "*"
    · have other : dropbearDefaddress ≠ lit "*" := by decide
      simp [Except.toOption, star, other]
    · simp [Except.toOption, star]

theorem length_plain_le (ps : List Piece) :
    (ps.filterMap Piece.plainSpec).length ≤ (specs ps).length := by
  induction ps with
  | nil => exact Nat.le_refl 0
  | cons p ps ih =>
    unfold specs at ih ⊢
    cases plain : p.plainSpec with
    | some v =>
      rw [List.filterMap_cons_some plain, List.filterMap_cons_some (spec_of_plainSpec plain)]
      exact Nat.succ_le_succ ih
    | none =>
      rw [List.filterMap_cons_none plain]
      exact ih.trans ((List.sublist_cons_self p ps).filterMap _).length_le

/-- As many plain ports as ports: every port is plain. -/
theorem plain_of_length (h : (ps.filterMap Piece.plainSpec).length = (specs ps).length) :
    ∀ p ∈ ps, ∀ spec, p.spec = some spec → p.plainSpec = some spec := by
  induction ps with
  | nil => simp
  | cons p ps ih =>
    have rest := length_plain_le ps
    unfold specs at ih h rest
    rw [List.forall_mem_cons]
    cases port : p.spec with
    | none =>
      have plain : p.plainSpec = none := by
        cases plain : p.plainSpec with
        | none => rfl
        | some v => rw [spec_of_plainSpec plain] at port; cases port
      rw [List.filterMap_cons_none plain, List.filterMap_cons_none port] at h
      exact ⟨by simp, ih h⟩
    | some v =>
      rw [List.filterMap_cons_some port] at h
      cases plain : p.plainSpec with
      | none =>
        -- one port more than there are plain ones
        rw [List.filterMap_cons_none plain, List.length_cons] at h
        omega
      | some v' =>
        rw [List.filterMap_cons_some plain, List.length_cons, List.length_cons] at h
        exact ⟨fun spec hs => (spec_of_plainSpec plain).symm.trans port ▸ hs,
          ih (Nat.succ.inj h)⟩

theorem filterMap_plain (h : ∀ p ∈ ps, ∀ spec, p.spec = some spec → p.plainSpec = some spec) :
    ps.filterMap Piece.plainSpec = specs ps := by
  refine List.filterMap_congr fun p hp => ?_
  cases port : p.spec with
  | some v => exact h p hp v port
  | none =>
    cases plain : p.plainSpec with
    | none => rfl
    | some v => rw [spec_of_plainSpec plain] at port; cases port

/-- The plain ports read as all the ports exactly if there are no others, and no `*`. -/
theorem readings_plain_iff :
    (ps.filterMap Piece.plainSpec).map reading =
        (specs ps).map (fun spec => (binding spec).toOption) ↔ PlainPorts ps := by
  constructor
  · intro same p hp spec port
    have plain := plain_of_length (by simpa using congrArg List.length same)
    rw [filterMap_plain plain] at same
    have mem : spec ∈ specs ps := List.mem_filterMap.mpr ⟨p, hp, port⟩
    exact ⟨plain p hp spec port, reading_eq_binding.mp (List.map_inj_left.mp same spec mem)⟩
  · intro plain
    rw [filterMap_plain fun p hp spec port => (plain p hp spec port).1]
    refine List.map_congr_left fun spec mem => ?_
    obtain ⟨p, hp, port⟩ := List.mem_filterMap.mp mem
    exact reading_eq_binding.mpr (plain p hp spec port).2

end

section
variable {options : JString} {port : Option JString} {o : SvrOpts} {ps : List Piece}

/-- With a word `-p` the server has the user's ports only. -/
theorem listeners_own (h : svrGetoptsLoop (startSshdArgv options (getPort port)) = .ok o)
    (written : Written ps (splitOptions options)) (own : jlit "-p" ∈ splitOptions options) :
    (listeners o).map some =
      if specs ps = [] then [some (dropbearDefaddress, dropbearDefport)]
      else ((specs ps).take dropbearMaxPorts).map fun spec => (binding spec).toOption := by
  have ports := ports_of_accepted h written
  rw [if_pos (List.contains_iff_mem.mpr own), List.nil_append] at ports
  have length := congrArg List.length ports
  rw [List.length_map, List.length_map, List.length_take] at length
  unfold listeners
  by_cases none : specs ps = []
  · rw [if_pos none]
    rw [none, List.length_nil, Nat.min_zero] at length
    rw [if_pos length]
    rfl
  · have some : 0 < (specs ps).length := List.length_pos_of_ne_nil none
    have filled : o.ports.length ≠ 0 := by
      rw [length, dropbearMaxPorts]
      omega
    rw [if_neg none, if_neg filled, ports]

/-- Without one, the port preference comes first. -/
theorem displayed_default (h : svrGetoptsLoop (startSshdArgv options (getPort port)) = .ok o)
    (written : Written ps (splitOptions options)) (default : jlit "-p" ∉ splitOptions options) :
    Displayed options port o ↔ specs ps = [] := by
  have ports := ports_of_accepted h written
  have default : ¬ (splitOptions options).contains (jlit "-p") = true :=
    fun own => default (List.contains_iff_mem.mp own)
  rw [if_neg default, List.singleton_append, dropbearMaxPorts, List.take_succ_cons,
    List.map_cons] at ports
  have filled : o.ports.length ≠ 0 := by
    have := congrArg List.length ports
    rw [List.length_map, List.length_cons] at this
    omega
  rw [Displayed, getBindings, if_neg default, List.map_singleton, shown_port, listeners,
    if_neg filled, ports]
  simp

/-- With a word `-p`, tidy options are displayed if all of their ports are plain. -/
theorem displayed_tidy (h : svrGetoptsLoop (startSshdArgv options (getPort port)) = .ok o)
    (written : Written ps (splitOptions options)) (own : jlit "-p" ∈ splitOptions options)
    (tidy : Tidy ps) : Displayed options port o ↔ PlainPorts ps := by
  obtain ⟨noStray, few⟩ := tidy
  obtain ⟨p, hp, spec, plain⟩ := (dashP_mem_words written noStray).mp own
  have filled : specs ps ≠ [] :=
    List.ne_nil_of_mem (List.mem_filterMap.mpr ⟨p, hp, spec_of_plainSpec plain⟩)
  have scan : (collectBindings (splitOptions options)).map shown =
      (ps.filterMap Piece.plainSpec).map reading := by
    rw [← collectBindings_written written noStray, List.map_map]
    rfl
  rw [Displayed, getBindings, if_pos (List.contains_iff_mem.mpr own), listeners_own h written own,
    if_neg filled, List.take_of_length_le few, scan, readings_plain_iff]

/-- With a word `-p`, what is displayed is what stands behind one. -/
theorem displayed_own (h : svrGetoptsLoop (startSshdArgv options (getPort port)) = .ok o)
    (written : Written ps (splitOptions options)) (own : jlit "-p" ∈ splitOptions options) :
    Displayed options port o ↔ SayPorts ps (splitOptions options) := by
  rw [Displayed, getBindings, if_pos (List.contains_iff_mem.mpr own), listeners_own h written own,
    collectBindings_eq, List.map_map]
  rfl

/-- What the app displays is what the server listens on exactly for the options whose ports
are as shown. -/
theorem displayed_iff (h : svrGetoptsLoop (startSshdArgv options (getPort port)) = .ok o) :
    Displayed options port o ↔
      ∃ ps, Written ps (splitOptions options) ∧ AsShown ps (splitOptions options) := by
  have each : ∀ ps, Written ps (splitOptions options) →
      (Displayed options port o ↔ AsShown ps (splitOptions options)) := by
    intro ps written
    unfold AsShown
    by_cases own : jlit "-p" ∈ splitOptions options
    · rw [if_neg (by simp [own])]
      by_cases tidy : Tidy ps
      · rw [if_pos tidy, displayed_tidy h written own tidy]
      · rw [if_neg tidy, displayed_own h written own]
    · rw [if_pos (by simp [own]), displayed_default h written own]
  obtain ⟨ps, written⟩ := written_of_accepted h
  constructor
  · exact fun displayed => ⟨ps, written, (each ps written).mp displayed⟩
  · exact fun ⟨ps, written, shown⟩ => (each ps written).mpr shown

end

/-- Two ports, one of them with an address. -/
def twoPorts : JString := jlit "-w -p 8022 -p [::1]:22"

def twoPortsOptions : List Piece :=
  [.flags [119], .separate [] 112 (lit "8022"), .separate [] 112 (lit "[::1]:22")]

theorem displayed_iff_two_ports :
    ∃ o, svrGetoptsLoop (startSshdArgv twoPorts (getPort none)) = .ok o ∧
      Displayed twoPorts none o := by
  have accepted : (svrGetoptsLoop (startSshdArgv twoPorts (getPort none))).isOk = true := by
    decide +kernel
  cases h : svrGetoptsLoop (startSshdArgv twoPorts (getPort none)) with
  | error e => rw [h] at accepted; cases accepted
  | ok o =>
    refine ⟨o, rfl, (displayed_iff h).mpr ⟨twoPortsOptions, ⟨?_, by decide +kernel⟩, ?_⟩⟩
    · have switch : (Piece.flags [119]).WellFormed := switch_wellFormed (by decide)
      simp [twoPortsOptions, switch, port_wellFormed]
    · rw [AsShown, if_neg (by decide +kernel), if_pos (by decide)]
      exact readings_plain_iff.mp (by decide)

/-- With the extra option `-p8022` the server listens on 2222 and 8022, and the app shows
`*:2222` alone. -/
theorem attached_port_not_displayed :
    ¬ ∀ (options : JString) (port : Option JString) (o : SvrOpts),
      svrGetoptsLoop (startSshdArgv options (getPort port)) = .ok o → Displayed options port o := by
  intro claim
  have hidden : (match svrGetoptsLoop (startSshdArgv (jlit "-p8022") (getPort none)) with
      | .ok o => decide (Displayed (jlit "-p8022") none o)
      | .error _ => true) = false := by decide +kernel
  split at hidden
  · rename_i o h
    exact absurd (claim _ _ o h) (of_decide_eq_false hidden)
  · cases hidden

end Ikofi.Options
